import Rim.Proofs.Record.Graph
import Rim.Proofs.Schema.Layout

/-!
# Which records can be written

Validation apart, whether anything is written of a record is decided by its parts alone.

* `Wire.Writable`: something is written of a content.
* `Part.Writable`: the same for a part of a record graph. Times always are.
* `Record.writable_iff`: a record is writable exactly when its fields and its extension set are.
* `Comid.writable_iff` and its siblings: exactly when all its parts are.
-/

namespace Rim

/-! ## Contents -/

namespace Wire

variable {α : Type} {f : Form} {types : TypeTable}

/-- Something is written of a content. -/
def Writable (w : Wire α) (f : Form) (types : TypeTable) (a : α) : Prop :=
  ∃ v, w.encode f types a = .ok v

/-- Lists are writable exactly when their elements are. -/
@[simp] theorem writable_list {w : Wire α} {as : List α} :
    (list w).Writable f types as ↔ ∀ a ∈ as, w.Writable f types a := by
  refine Iff.trans ?_ Except.exists_mapM_eq_ok_iff
  constructor
  · rintro ⟨_, h⟩
    obtain ⟨items, hitems, -⟩ := Except.bind_eq_ok_iff.1 h
    exact ⟨items, hitems⟩
  · rintro ⟨items, hitems⟩
    exact ⟨f.array items, Except.bind_eq_ok_iff.2 ⟨items, hitems, rfl⟩⟩

end Wire

theorem Coding.Total.writable {α : Type} {c : Coding α} (h : c.Total) (f : Form)
    (types : TypeTable) (a : α) : c.toWire.Writable f types a := h f a

theorem Instant.total_coding : coding.Total := fun f _ => by cases f <;> exact ⟨_, rfl⟩

/-! ## Parts -/

/-- Something is written of a part. -/
def Part.Writable (f : Form) (types : TypeTable) : Part → Prop
  | .choice family value => (Wire.choice family).Writable f types value
  | .extensions _ set => ∃ entries, set.encode f = .ok entries
  | .time _ => True
  | .profile id => ProfileId.coding.toWire.Writable f types id

/-! ## Records -/

/-- In a list that is not written when it is empty, every element counts. -/
@[simp] theorem forall_mem_present? {α : Type} {xs : List α} {P : α → Prop} :
    (∀ ys, present? xs = some ys → ∀ y ∈ ys, P y) ↔ ∀ x ∈ xs, P x := by
  cases xs <;> simp [present?]

namespace Record

variable {R : Type} {f : Form} {types : TypeTable}

theorem exists_encodeFields_iff {r : R} {xs : List (Field R)} :
    (∃ entries, encodeFields f types r xs = .ok entries) ↔
      ∀ x ∈ xs, ∀ a, x.get r = some a → x.wire.Writable f types a := by
  induction xs with
  | nil => simp [encodeFields]
  | cons x rest ih =>
    rw [List.forall_mem_cons, ← ih]
    cases hget : x.get r with
    | none => simp [encodeFields, Field.encode, hget]
    | some a =>
      simp only [encodeFields, Field.encode, hget, Option.map_some, Option.some.injEq,
        forall_eq']
      constructor
      · rintro ⟨_, h⟩
        obtain ⟨v, hv, h⟩ := Except.bind_eq_ok_iff.1 h
        obtain ⟨others, hothers, -⟩ := Except.bind_eq_ok_iff.1 h
        exact ⟨⟨v, hv⟩, others, hothers⟩
      · rintro ⟨⟨v, hv⟩, others, hothers⟩
        exact ⟨(x.key, v) :: others, Except.bind_eq_ok_iff.2
          ⟨v, hv, Except.bind_eq_ok_iff.2 ⟨others, hothers, rfl⟩⟩⟩

/-- A record is writable exactly when its fields and its extension set are. -/
theorem writable_iff [Record R] {r : R} : (wire R).Writable f types r ↔
    (∀ x ∈ fields, ∀ a, x.get r = some a → x.wire.Writable f types a) ∧
      ∃ entries, (ownSet r).encode f = .ok entries := by
  rw [← exists_encodeFields_iff, ← encodeExtensions_eq]
  constructor
  · rintro ⟨v, h⟩
    obtain ⟨fixed, extensions, hfixed, hextensions, -⟩ := encode_cases h
    exact ⟨⟨fixed, hfixed⟩, extensions, hextensions⟩
  · rintro ⟨⟨fixed, hfixed⟩, extensions, hextensions⟩
    exact ⟨f.record (fixed ++ extensions), Except.bind_eq_ok_iff.2
      ⟨fixed, hfixed, Except.bind_eq_ok_iff.2 ⟨extensions, hextensions, rfl⟩⟩⟩

end Record

/-! ## The kinds of records -/

section

variable {f : Form} {types : TypeTable}

@[simp] theorem Part.writable_choice {family : Family} {value : ChoiceValue} :
    (Part.choice family value).Writable f types ↔ (Wire.choice family).Writable f types value :=
  Iff.rfl

@[simp] theorem Part.writable_extensions {point : ExtensionPoint} {set : ExtensionSet} :
    (Part.extensions point set).Writable f types ↔ ∃ entries, set.encode f = .ok entries :=
  Iff.rfl

@[simp] theorem Part.writable_time {t : Instant} : (Part.time t).Writable f types ↔ True :=
  Iff.rfl

@[simp] theorem Part.writable_profile {id : ProfileId} :
    (Part.profile id).Writable f types ↔ ProfileId.coding.toWire.Writable f types id :=
  Iff.rfl

@[simp] theorem ExtensionSet.exists_encode_empty :
    ∃ entries, ExtensionSet.empty.encode f = .ok entries := ⟨[], rfl⟩

@[simp] theorem Coding.writable_text (s : String) : text.toWire.Writable f types s :=
  total_text.writable f types s

@[simp] theorem Coding.writable_uint (n : UInt64) : uint.toWire.Writable f types n :=
  total_uint.writable f types n

@[simp] theorem Coding.writable_taggedUri (s : String) : taggedUri.toWire.Writable f types s :=
  total_taggedUri.writable f types s

theorem TagIdentity.writable_iff (t : TagIdentity) :
    (Record.wire TagIdentity).Writable f types t ↔
      ∀ p ∈ Graph.parts t, p.Writable f types := by
  rw [Record.writable_iff, forall_parts]
  simp [Record.fields, fields, Field.of, Record.ownSet, Record.host]

theorem Entity.writable_iff (e : Entity) :
    (Record.wire Entity).Writable f types e ↔ ∀ p ∈ Graph.parts e, p.Writable f types := by
  rw [Record.writable_iff, forall_parts]
  simp [Record.fields, fields, Field.of, Record.ownSet, Record.host, Roles.total_coding.writable]

theorem Class.writable_iff (c : Class) :
    (Record.wire Class).Writable f types c ↔ ∀ p ∈ Graph.parts c, p.Writable f types := by
  rw [Record.writable_iff, forall_parts]
  simp [Record.fields, fields, Field.of, Record.ownSet, Record.host]

theorem Environment.writable_iff (e : Environment) :
    (Record.wire Environment).Writable f types e ↔ ∀ p ∈ Graph.parts e, p.Writable f types := by
  rw [Record.writable_iff, forall_parts]
  simp [Record.fields, fields, Field.of, Record.ownSet, Record.host, Class.writable_iff]

theorem Version.writable (v : Version) : (Record.wire Version).Writable f types v := by
  rw [Record.writable_iff]
  simp [Record.fields, fields, Field.of, Record.ownSet, Record.host,
    VersionScheme.total_coding.writable]

theorem Mval.writable_iff (m : Mval) :
    (Record.wire Mval).Writable f types m ↔ ∀ p ∈ Graph.parts m, p.Writable f types := by
  rw [Record.writable_iff, forall_parts]
  simp [Record.fields, fields, Field.of, Record.ownSet, Record.host, Version.writable,
    Svn.total_coding.writable, Digests.total_coding.writable]

theorem Measurement.writable_iff (m : Measurement) :
    (Record.wire Measurement).Writable f types m ↔ ∀ p ∈ Graph.parts m, p.Writable f types := by
  rw [Record.writable_iff, forall_parts]
  simp [Record.fields, fields, Field.of, Record.ownSet, Record.host, Mval.writable_iff]

/-- Whatever the form, a triple is written exactly when its two parts are. -/
theorem ValueTriple.writable_wire {t : ValueTriple} : wire.Writable f types t ↔
    (Record.wire Environment).Writable f types t.environment ∧
      (Wire.list (Record.wire Measurement)).Writable f types t.measurements := by
  constructor
  · rintro ⟨v, hv⟩
    obtain ⟨_, h⟩ : ∃ ps, encodeParts f types t = .ok ps := by
      cases f <;> exact (Except.bind_eq_ok_iff.1 hv).imp fun _ h => h.1
    obtain ⟨e, he, h⟩ := Except.bind_eq_ok_iff.1 h
    obtain ⟨ms, hms, -⟩ := Except.bind_eq_ok_iff.1 h
    exact ⟨⟨e, he⟩, ms, hms⟩
  · rintro ⟨⟨e, he⟩, ms, hms⟩
    have h : encodeParts f types t = .ok (e, ms) :=
      Except.bind_eq_ok_iff.2 ⟨e, he, Except.bind_eq_ok_iff.2 ⟨ms, hms, rfl⟩⟩
    cases f <;> exact ⟨_, Except.bind_eq_ok_iff.2 ⟨_, h, rfl⟩⟩

theorem ValueTriple.writable_iff (t : ValueTriple) :
    wire.Writable f types t ↔ ∀ p ∈ Graph.parts t, p.Writable f types := by
  rw [writable_wire, forall_parts, Environment.writable_iff, Wire.writable_list]
  simp only [Measurement.writable_iff]

theorem Triples.writable_iff (t : Triples) :
    (Record.wire Triples).Writable f types t ↔ ∀ p ∈ Graph.parts t, p.Writable f types := by
  rw [Record.writable_iff, forall_parts]
  simp [Record.fields, fields, Field.of, Record.ownSet, Record.host, listWire,
    ValueTriple.writable_iff, and_assoc]

/-- Nothing is in the way of writing triples that are passed over for being empty. -/
theorem Triples.writable_of_isEmpty {t : Triples} (h : t.isEmpty = true) :
    (Record.wire Triples).Writable f types t := by
  simp only [isEmpty, ExtensionSet.isEmpty, Bool.and_eq_true, List.isEmpty_iff] at h
  obtain ⟨⟨hreference, hendorsed⟩, hextensions⟩ := h
  rw [writable_iff, forall_parts, hreference, hendorsed]
  exact ⟨nofun, nofun, ExtensionSet.exists_encode (by simp [hextensions]) f⟩

theorem Comid.writable_iff (c : Comid) :
    (Record.wire Comid).Writable f types c ↔ ∀ p ∈ Graph.parts c, p.Writable f types := by
  have htriples : (∀ t, (if c.triples.isEmpty then none else some c.triples) = some t →
      (Record.wire Triples).Writable f types t) ↔
      (Record.wire Triples).Writable f types c.triples := by
    split
    next hempty => simp [Triples.writable_of_isEmpty hempty]
    next => simp
  rw [Record.writable_iff, forall_parts, ← Triples.writable_iff, ← htriples]
  simp [Record.fields, fields, Field.of, Record.ownSet, Record.host, TagIdentity.writable_iff,
    Entity.writable_iff, and_assoc]

/-- A tag inside a manifest is writable exactly when it is on its own. -/
@[simp] theorem Comid.writable_embedded {c : Comid} :
    embedded.Writable f types c ↔ (Record.wire Comid).Writable f types c := by
  constructor
  · rintro ⟨v, hv⟩
    cases f <;> exact (Except.bind_eq_ok_iff.1 hv).imp fun _ h => h.1
  · rintro ⟨v, hv⟩
    cases f <;> exact ⟨_, Except.bind_eq_ok_iff.2 ⟨v, hv, rfl⟩⟩

theorem Validity.writable_iff (w : Validity) :
    (Record.wire Validity).Writable f types w ↔ ∀ p ∈ Graph.parts w, p.Writable f types := by
  rw [Record.writable_iff, forall_parts]
  simp [Record.fields, fields, Field.of, Record.ownSet, Record.host, Instant.total_coding.writable]

theorem UnsignedCorim.writable_iff (m : UnsignedCorim) :
    (Record.wire UnsignedCorim).Writable f types m ↔ ∀ p ∈ Graph.parts m, p.Writable f types := by
  rw [Record.writable_iff, forall_parts]
  simp [Record.fields, fields, Field.of, Record.ownSet, Record.host, Comid.writable_iff,
    Validity.writable_iff, Entity.writable_iff, and_assoc]

theorem Signer.writable (s : Signer) : (Record.wire Signer).Writable f types s := by
  rw [Record.writable_iff]
  simp [Record.fields, fields, Field.of, Record.ownSet, Record.host]

theorem Meta.writable_iff (m : Meta) :
    (Record.wire Meta).Writable f types m ↔ ∀ p ∈ Graph.parts m, p.Writable f types := by
  rw [Record.writable_iff, forall_parts]
  simp [Record.fields, fields, Field.of, Record.ownSet, Record.host, Signer.writable,
    Validity.writable_iff]

/-- A record of the base schema is writable exactly when all its parts are. -/
theorem RecordKind.writable_iff (k : RecordKind) (r : k.Carrier) :
    (Record.wire k.Carrier).Writable f types r ↔ ∀ p ∈ Graph.parts r, p.Writable f types := by
  cases k with
  | comid => exact Comid.writable_iff r
  | tagIdentity => exact TagIdentity.writable_iff r
  | entity => exact Entity.writable_iff r
  | triples => exact Triples.writable_iff r
  | environment => exact Environment.writable_iff r
  | class_ => exact Class.writable_iff r
  | measurement => exact Measurement.writable_iff r
  | mval => exact Mval.writable_iff r
  | version => exact iff_of_true (Version.writable r) nofun
  | unsignedCorim => exact UnsignedCorim.writable_iff r
  | meta_ => exact Meta.writable_iff r
  | signer => exact iff_of_true (Signer.writable r) nofun
  | validity => exact Validity.writable_iff r

end

end Rim
