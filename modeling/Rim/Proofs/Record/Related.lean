import Rim.Proofs.Record.Graph
import Rim.Proofs.Schema.Related

/-!
# Every kind of record in two scopes

* `Comid.related` and its siblings: in related scopes the records of every kind compare, since all
  their fields do.
* `RecordKind.decode_related`, `RecordKind.encode_related`: the same for the kinds at once. A
  manifest may name its own profile, of which both scopes have to know the same.
-/

namespace Rim

open Decoding (Comparison)

variable {ρ : Comparison} {f : Form} {sc sc' : Scope}

/-! ## The kinds of records -/

theorem TagIdentity.related (h : sc.Related ρ sc') :
    (Record.wire TagIdentity).Related ρ f sc sc' :=
  Record.wire_related rfl h ⟨Wire.related_choice h _, Wire.related_coding _⟩

theorem Entity.related (h : sc.Related ρ sc') : (Record.wire Entity).Related ρ f sc sc' :=
  Record.wire_related rfl h
    ⟨Wire.related_choice h _, Wire.related_coding _, Wire.related_coding _⟩

theorem Class.related (h : sc.Related ρ sc') : (Record.wire Class).Related ρ f sc sc' :=
  Record.wire_related rfl h ⟨Wire.related_choice h _, Wire.related_coding _, Wire.related_coding _,
    Wire.related_coding _, Wire.related_coding _⟩

theorem Environment.related (h : sc.Related ρ sc') :
    (Record.wire Environment).Related ρ f sc sc' :=
  Record.wire_related rfl h (Class.related h)

theorem Version.related (h : sc.Related ρ sc') : (Record.wire Version).Related ρ f sc sc' :=
  Record.wire_related rfl h ⟨Wire.related_coding _, Wire.related_coding _⟩

theorem Mval.related (h : sc.Related ρ sc') : (Record.wire Mval).Related ρ f sc sc' :=
  Record.wire_related rfl h ⟨Version.related h, Wire.related_coding _, Wire.related_coding _,
    Wire.related_coding _, Wire.related_coding _⟩

theorem Measurement.related (h : sc.Related ρ sc') :
    (Record.wire Measurement).Related ρ f sc sc' :=
  Record.wire_related rfl h (Mval.related h)

namespace ValueTriple

theorem decodeParts_related (h : sc.Related ρ sc') (e ms : f.Value) :
    ρ.Holds (decodeParts f sc e ms) (decodeParts f sc' e ms) := by
  have henvironment := (Environment.related (f := f) h).reads e
  have hmeasurements := (Wire.related_list (Measurement.related (f := f) h)).reads ms
  refine ρ.bind (ρ.mapError (.field "environment") (fun _ => rfl) henvironment) fun _ => ?_
  exact ρ.map (ρ.mapError (.field "measurements") (fun _ => rfl) hmeasurements) _

theorem encodeParts_related (h : sc.Related ρ sc') {t : ValueTriple} {parts : f.Value × f.Value}
    (hparts : encodeParts f sc.types t = .ok parts) : encodeParts f sc'.types t = .ok parts := by
  obtain ⟨e, he, hrest⟩ := Except.bind_eq_ok_iff.1 hparts
  obtain ⟨ms, hms, hpure⟩ := Except.bind_eq_ok_iff.1 hrest
  refine Except.bind_eq_ok_iff.2 ⟨e, (Environment.related h).writes _ _ he, ?_⟩
  exact Except.bind_eq_ok_iff.2
    ⟨ms, (Wire.related_list (Measurement.related h)).writes _ _ hms, hpure⟩

theorem related (h : sc.Related ρ sc') : wire.Related ρ f sc sc' := by
  constructor
  · intro v
    cases f with
    | binary => exact ρ.ofExcept_bind _ fun (e, ms) _ => decodeParts_related (f := .binary) h e ms
    | text => exact ρ.ofExcept_bind _ fun (e, ms) _ => decodeParts_related (f := .text) h e ms
  · intro t v hv
    cases f with
    | binary =>
      obtain ⟨parts, hparts, hpure⟩ := Except.bind_eq_ok_iff.1 hv
      exact Except.bind_eq_ok_iff.2 ⟨parts, encodeParts_related h hparts, hpure⟩
    | text =>
      obtain ⟨parts, hparts, hpure⟩ := Except.bind_eq_ok_iff.1 hv
      exact Except.bind_eq_ok_iff.2 ⟨parts, encodeParts_related h hparts, hpure⟩

end ValueTriple

theorem Triples.related (h : sc.Related ρ sc') : (Record.wire Triples).Related ρ f sc sc' :=
  have hlist : listWire.Related ρ f sc sc' := Wire.related_list (ValueTriple.related h)
  Record.wire_related rfl h ⟨hlist, hlist⟩

theorem Comid.related (h : sc.Related ρ sc') : (Record.wire Comid).Related ρ f sc sc' :=
  Record.wire_related rfl h ⟨Wire.related_coding _, TagIdentity.related h,
    Wire.related_list (Entity.related h), Triples.related h⟩

/-- Tags inside manifests compare: their octets, or their envelope, do not depend on the scope. -/
theorem Comid.related_embedded (h : sc.Related ρ sc') : embedded.Related ρ f sc sc' := by
  constructor
  · intro v
    cases f with
    | binary =>
      refine ρ.ofExcept_bind _ fun content _ => ρ.ofExcept_bind _ fun octets _ => ?_
      exact ρ.ofExcept_bind _ fun inner _ => (Comid.related (f := .binary) h).reads inner
    | text =>
      refine ρ.ofExcept_bind _ fun e _ => ?_
      split
      · exact (Comid.related (f := .text) h).reads e.value
      · exact ρ.ofExcept (.error _)
  · intro c v hv
    cases f with
    | binary =>
      obtain ⟨inner, hinner, hpure⟩ := Except.bind_eq_ok_iff.1 hv
      exact Except.bind_eq_ok_iff.2 ⟨inner, (Comid.related h).writes _ _ hinner, hpure⟩
    | text =>
      obtain ⟨inner, hinner, hpure⟩ := Except.bind_eq_ok_iff.1 hv
      exact Except.bind_eq_ok_iff.2 ⟨inner, (Comid.related h).writes _ _ hinner, hpure⟩

theorem Validity.related (h : sc.Related ρ sc') : (Record.wire Validity).Related ρ f sc sc' :=
  Record.wire_related rfl h ⟨Wire.related_coding _, Wire.related_coding _⟩

theorem UnsignedCorim.fields_related (h : sc.Related ρ sc') :
    Record.FieldsRelated UnsignedCorim ρ f sc sc' :=
  ⟨Wire.related_choice h _, Wire.related_list (Comid.related_embedded h), Wire.related_coding _,
    Validity.related h, Wire.related_list (Entity.related h)⟩

theorem Signer.related (h : sc.Related ρ sc') : (Record.wire Signer).Related ρ f sc sc' :=
  Record.wire_related rfl h ⟨Wire.related_coding _, Wire.related_coding _⟩

theorem Meta.related (h : sc.Related ρ sc') : (Record.wire Meta).Related ρ f sc sc' :=
  Record.wire_related rfl h ⟨Signer.related h, Validity.related h⟩

/-! ## All kinds -/

namespace RecordKind

/-- Both scopes know the same of the profile that a value of the kind names. -/
def SameProfile (k : RecordKind) (f : Form) (sc sc' : Scope) (v : f.Value) : Prop :=
  ∀ entries, f.members v = .ok entries → ∀ id, Record.profileHint k.Carrier f entries = some id →
    sc'.profiles id = sc.profiles id

/-- In scopes that know the same of its profile, the decodes of a record of any kind compare. -/
theorem decode_related (k : RecordKind) (h : sc.Related ρ sc') {v : f.Value}
    (hprofile : k.SameProfile f sc sc' v) :
    ρ.Holds (Record.decode f sc v : Decoding k.Carrier) (Record.decode f sc' v) := by
  cases k with
  | comid => exact (Comid.related h).reads v
  | tagIdentity => exact (TagIdentity.related h).reads v
  | entity => exact (Entity.related h).reads v
  | triples => exact (Triples.related h).reads v
  | environment => exact (Environment.related h).reads v
  | class_ => exact (Class.related h).reads v
  | measurement => exact (Measurement.related h).reads v
  | mval => exact (Mval.related h).reads v
  | version => exact (Version.related h).reads v
  | unsignedCorim =>
    refine Record.decode_related fun entries hentries => ?_
    have hscoped : (sc.scopedTo (Record.profileHint UnsignedCorim f entries)).Related ρ
        (sc'.scopedTo (Record.profileHint UnsignedCorim f entries)) := by
      refine h.scopedTo ?_
      cases hhint : Record.profileHint UnsignedCorim f entries with
      | none => rfl
      | some id => exact hprofile entries hentries id hhint
    exact ⟨hscoped, UnsignedCorim.fields_related hscoped⟩
  | meta_ => exact (Meta.related h).reads v
  | signer => exact (Signer.related h).reads v
  | validity => exact (Validity.related h).reads v

/-- What can be written of a record in the first scope is written alike in the second. -/
theorem encode_related (k : RecordKind) (h : sc.Related ρ sc') {r : k.Carrier} {v : f.Value}
    (hv : Record.encode f sc.types r = .ok v) : Record.encode f sc'.types r = .ok v := by
  cases k with
  | comid => exact (Comid.related h).writes r v hv
  | tagIdentity => exact (TagIdentity.related h).writes r v hv
  | entity => exact (Entity.related h).writes r v hv
  | triples => exact (Triples.related h).writes r v hv
  | environment => exact (Environment.related h).writes r v hv
  | class_ => exact (Class.related h).writes r v hv
  | measurement => exact (Measurement.related h).writes r v hv
  | mval => exact (Mval.related h).writes r v hv
  | version => exact (Version.related h).writes r v hv
  | unsignedCorim => exact Record.encode_related (UnsignedCorim.fields_related h) hv
  | meta_ => exact (Meta.related h).writes r v hv
  | signer => exact (Signer.related h).writes r v hv
  | validity => exact (Validity.related h).writes r v hv

end RecordKind

end Rim
