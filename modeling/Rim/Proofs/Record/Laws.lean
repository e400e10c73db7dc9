import Rim.Proofs.Schema.Record
import Rim.Record.Meta

/-!
# The kinds of records are lawful

In every kind of record of the base schema the fixed fields have slots, names and places of their
own, and none of them meets the extension set.
-/

namespace Rim

instance : LawfulRecord TagIdentity where
  slots := by decide
  names := by decide
  get_empty := by simp [Record.fields, TagIdentity.fields, Field.of, Record.empty]
  set_set := by simp [Record.fields, TagIdentity.fields, Field.of]
  apart := by simp [Record.fields, TagIdentity.fields, Field.of, Field.apart_iff]
  host _ h := by cases h

instance : LawfulRecord Entity where
  slots := by decide
  names := by decide
  get_empty := by simp [Record.fields, Entity.fields, Field.of, Record.empty, present?]
  set_set := by simp [Record.fields, Entity.fields, Field.of]
  apart := by simp [Record.fields, Entity.fields, Field.of, Field.apart_iff]
  host := by
    rintro _ ⟨⟩
    refine ⟨rfl, fun _ _ => rfl, fun _ => rfl, fun _ _ _ => rfl, ?_, by decide⟩
    simp [Record.fields, Entity.fields, Field.of, ExtensionHost.apart_iff]

instance : LawfulRecord Class where
  slots := by decide
  names := by decide
  get_empty := by simp [Record.fields, Class.fields, Field.of, Record.empty]
  set_set := by simp [Record.fields, Class.fields, Field.of]
  apart := by simp [Record.fields, Class.fields, Field.of, Field.apart_iff]
  host := by
    rintro _ ⟨⟩
    refine ⟨rfl, fun _ _ => rfl, fun _ => rfl, fun _ _ _ => rfl, ?_, by decide⟩
    simp [Record.fields, Class.fields, Field.of, ExtensionHost.apart_iff]

instance : LawfulRecord Environment where
  slots := by decide
  names := by decide
  get_empty := by simp [Record.fields, Environment.fields, Field.of, Record.empty]
  set_set := by simp [Record.fields, Environment.fields, Field.of]
  apart := by simp [Record.fields, Environment.fields, Field.of, Field.apart_iff]
  host _ h := by cases h

instance : LawfulRecord Version where
  slots := by decide
  names := by decide
  get_empty := by simp [Record.fields, Version.fields, Field.of, Record.empty]
  set_set := by simp [Record.fields, Version.fields, Field.of]
  apart := by simp [Record.fields, Version.fields, Field.of, Field.apart_iff]
  host _ h := by cases h

instance : LawfulRecord Mval where
  slots := by decide
  names := by decide
  get_empty := by simp [Record.fields, Mval.fields, Field.of, Record.empty]
  set_set := by simp [Record.fields, Mval.fields, Field.of]
  apart := by simp [Record.fields, Mval.fields, Field.of, Field.apart_iff]
  host := by
    rintro _ ⟨⟩
    refine ⟨rfl, fun _ _ => rfl, fun _ => rfl, fun _ _ _ => rfl, ?_, by decide⟩
    simp [Record.fields, Mval.fields, Field.of, ExtensionHost.apart_iff]

instance : LawfulRecord Measurement where
  slots := by decide
  names := by decide
  get_empty := by simp [Record.fields, Measurement.fields, Field.of, Record.empty]
  set_set := by simp [Record.fields, Measurement.fields, Field.of]
  apart := by simp [Record.fields, Measurement.fields, Field.of, Field.apart_iff]
  host _ h := by cases h

instance : LawfulRecord Triples where
  slots := by decide
  names := by decide
  get_empty := by simp [Record.fields, Triples.fields, Field.of, Record.empty, present?]
  set_set := by simp [Record.fields, Triples.fields, Field.of]
  apart := by simp [Record.fields, Triples.fields, Field.of, Field.apart_iff]
  host := by
    rintro _ ⟨⟩
    refine ⟨rfl, fun _ _ => rfl, fun _ => rfl, fun _ _ _ => rfl, ?_, by decide⟩
    simp [Record.fields, Triples.fields, Field.of, ExtensionHost.apart_iff]

instance : LawfulRecord Comid where
  slots := by decide
  names := by decide
  get_empty := by
    simp [Record.fields, Comid.fields, Field.of, Record.empty, present?, Triples.isEmpty,
      ExtensionSet.isEmpty, ExtensionSet.empty]
  set_set := by simp [Record.fields, Comid.fields, Field.of]
  apart := by simp [Record.fields, Comid.fields, Field.of, Field.apart_iff]
  host := by
    rintro _ ⟨⟩
    refine ⟨rfl, fun _ _ => rfl, fun _ => rfl, fun _ _ _ => rfl, ?_, by decide⟩
    simp [Record.fields, Comid.fields, Field.of, ExtensionHost.apart_iff]

instance : LawfulRecord Validity where
  slots := by decide
  names := by decide
  get_empty := by simp [Record.fields, Validity.fields, Field.of, Record.empty]
  set_set := by simp [Record.fields, Validity.fields, Field.of]
  apart := by simp [Record.fields, Validity.fields, Field.of, Field.apart_iff]
  host _ h := by cases h

instance : LawfulRecord UnsignedCorim where
  slots := by decide
  names := by decide
  get_empty := by simp [Record.fields, UnsignedCorim.fields, Field.of, Record.empty, present?]
  set_set := by simp [Record.fields, UnsignedCorim.fields, Field.of]
  apart := by simp [Record.fields, UnsignedCorim.fields, Field.of, Field.apart_iff]
  host := by
    rintro _ ⟨⟩
    refine ⟨rfl, fun _ _ => rfl, fun _ => rfl, fun _ _ _ => rfl, ?_, by decide⟩
    simp [Record.fields, UnsignedCorim.fields, Field.of, ExtensionHost.apart_iff]

instance : LawfulRecord Signer where
  slots := by decide
  names := by decide
  get_empty := by simp [Record.fields, Signer.fields, Field.of, Record.empty]
  set_set := by simp [Record.fields, Signer.fields, Field.of]
  apart := by simp [Record.fields, Signer.fields, Field.of, Field.apart_iff]
  host _ h := by cases h

instance : LawfulRecord Meta where
  slots := by decide
  names := by decide
  get_empty := by simp [Record.fields, Meta.fields, Field.of, Record.empty]
  set_set := by simp [Record.fields, Meta.fields, Field.of]
  apart := by simp [Record.fields, Meta.fields, Field.of, Field.apart_iff]
  host _ h := by cases h

end Rim
