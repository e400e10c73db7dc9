import Mathlib.Logic.Relation
import Rim.Proofs.Record.Binding
import Rim.Proofs.Schema.Layout

/-!
# Where the records of a graph stand

* `Form.Inside`, `Form.Within`: what stands in a value, one level down and at any depth.
* `Wire.Shows`: whatever is written of a content, the records in it are written there.
* `AnyRecord.Child`, `AnyRecord.Within`: the records that are written as parts of a record, one
  level down and at any depth.
* `ExtensionSet.FromMap`: a set has the shape that a map which has been built holds for its point.
* `RecordKind.everySet_rebind`: binding a graph to such a map leaves sets of that kind.
* `AnyRecord.Within.encode`: every record of a graph of such sets is written where the whole graph
  is, and laid out there.
-/

namespace Rim

/-! ## Values inside values -/

namespace Form

/-- What stands in a value: the members of a map, the elements of a list, and the item in the octets
of a tag. -/
inductive Inside : (f : Form) → f.Value → f.Value → Prop where
  | member {f : Form} {whole : f.Value} {members : List (f.RawKey × f.Value)} {raw : f.RawKey}
      {v : f.Value} : f.members whole = .ok members → (raw, v) ∈ members → Inside f whole v
  | element {f : Form} {whole : f.Value} {items : List f.Value} {v : f.Value} :
      f.elements whole = .ok items → v ∈ items → Inside f whole v
  | octets (v : Cbor) : Inside .binary (.tag TagNumber.comid (.bytes (Cbor.write v))) v

/-- What stands in a value at any depth, and the value itself. -/
def Within (f : Form) (whole part : f.Value) : Prop := Relation.ReflTransGen f.Inside whole part

end Form

/-! ## Records inside records -/

/-- A record of some kind. -/
abbrev AnyRecord := Σ k : RecordKind, k.Carrier

/-- Whatever is written of a content, what is written of a record stands there. -/
def Wire.Shows {α : Type} (w : Wire α) (a : α) (part : AnyRecord) : Prop :=
  ∀ f types v, w.encode f types a = .ok v →
    ∃ u, Record.encode f types part.2 = .ok u ∧ f.Within v u

namespace Wire

theorem shows_record (k : RecordKind) (r : k.Carrier) : (Record.wire k.Carrier).Shows r ⟨k, r⟩ :=
  fun _ _ v hv => ⟨v, hv, .refl⟩

theorem Shows.list {α : Type} {w : Wire α} {a : α} {part : AnyRecord} (h : w.Shows a part)
    {as : List α} (ha : a ∈ as) : (Wire.list w).Shows as part := by
  intro f types v hv
  obtain ⟨items, hitems, hpure⟩ := Except.bind_eq_ok_iff.1 hv
  obtain rfl := Except.pure_eq_ok_iff.1 hpure
  obtain ⟨item, hitem, hencode⟩ :=
    exists_mem_right_of_forall₂ (Except.mapM_eq_ok_iff.1 hitems) a ha
  obtain ⟨u, hu, hwithin⟩ := h f types item hencode
  exact ⟨u, hu, .head (.element (f.elements_array items) hitem) hwithin⟩

end Wire

/-- A tag stands in its octets, or in its envelope. -/
theorem Comid.shows_embedded (c : Comid) : embedded.Shows c ⟨.comid, c⟩ := by
  intro f types v hv
  cases f with
  | binary =>
    obtain ⟨u, hu, hpure⟩ := Except.bind_eq_ok_iff.1 hv
    obtain rfl := Except.pure_eq_ok_iff.1 hpure
    exact ⟨u, hu, .single (.octets u)⟩
  | text =>
    obtain ⟨u, hu, hpure⟩ := Except.bind_eq_ok_iff.1 hv
    obtain rfl := Except.pure_eq_ok_iff.1 hpure
    have hmember : ("value", u) ∈ [("type", Json.string "comid"), ("value", u)] := by simp
    exact ⟨u, hu, .single (.member rfl hmember)⟩

namespace ValueTriple

/-- The two parts of a triple stand in it, in either form. -/
theorem encode_cases {f : Form} {types : TypeTable} {t : ValueTriple} {v : f.Value}
    (h : wire.encode f types t = .ok v) :
    ∃ e ms, (Record.wire Environment).encode f types t.environment = .ok e ∧
      (Wire.list (Record.wire Measurement)).encode f types t.measurements = .ok ms ∧
      f.Inside v e ∧ f.Inside v ms := by
  cases f with
  | binary =>
    obtain ⟨⟨e, ms⟩, hparts, hpure⟩ := Except.bind_eq_ok_iff.1 h
    obtain rfl := Except.pure_eq_ok_iff.1 hpure
    obtain ⟨_, he, hrest⟩ := Except.bind_eq_ok_iff.1 hparts
    obtain ⟨_, hms, heq⟩ := Except.bind_eq_ok_iff.1 hrest
    obtain ⟨rfl, rfl⟩ := Prod.mk.inj (Except.pure_eq_ok_iff.1 heq)
    exact ⟨_, _, he, hms, .element rfl (by simp), .element rfl (by simp)⟩
  | text =>
    obtain ⟨⟨e, ms⟩, hparts, hpure⟩ := Except.bind_eq_ok_iff.1 h
    obtain rfl := Except.pure_eq_ok_iff.1 hpure
    obtain ⟨_, he, hrest⟩ := Except.bind_eq_ok_iff.1 hparts
    obtain ⟨_, hms, heq⟩ := Except.bind_eq_ok_iff.1 hrest
    obtain ⟨rfl, rfl⟩ := Prod.mk.inj (Except.pure_eq_ok_iff.1 heq)
    have hmembers : ∀ e ms : Json, ("environment", e) ∈ [("environment", e), ("measurements", ms)] ∧
        ("measurements", ms) ∈ [("environment", e), ("measurements", ms)] := by simp
    exact ⟨_, _, he, hms, .member rfl (hmembers _ _).1, .member rfl (hmembers _ _).2⟩

theorem shows_environment (t : ValueTriple) : wire.Shows t ⟨.environment, t.environment⟩ := by
  intro f types v hv
  obtain ⟨e, -, he, -, hinside, -⟩ := encode_cases hv
  exact ⟨e, he, .single hinside⟩

theorem shows_measurement {t : ValueTriple} {m : Measurement} (hm : m ∈ t.measurements) :
    wire.Shows t ⟨.measurement, m⟩ := by
  intro f types v hv
  obtain ⟨-, ms, -, hms, -, hinside⟩ := encode_cases hv
  obtain ⟨u, hu, hwithin⟩ := (Wire.shows_record .measurement m).list hm f types ms hms
  exact ⟨u, hu, .head hinside hwithin⟩

end ValueTriple

namespace AnyRecord

/-- The records that are written as parts of a record. Triples that are empty are not written. -/
inductive Child : AnyRecord → AnyRecord → Prop where
  | tagIdentity {c : Comid} {t : TagIdentity} : c.tagIdentity = some t →
      Child ⟨.comid, c⟩ ⟨.tagIdentity, t⟩
  | comidEntity {c : Comid} {e : Entity} : e ∈ c.entities → Child ⟨.comid, c⟩ ⟨.entity, e⟩
  | triples {c : Comid} : c.triples.isEmpty = false → Child ⟨.comid, c⟩ ⟨.triples, c.triples⟩
  | environment {t : Triples} {v : ValueTriple} : v ∈ t.referenceValues ∨ v ∈ t.endorsedValues →
      Child ⟨.triples, t⟩ ⟨.environment, v.environment⟩
  | measurement {t : Triples} {v : ValueTriple} {m : Measurement} :
      v ∈ t.referenceValues ∨ v ∈ t.endorsedValues → m ∈ v.measurements →
      Child ⟨.triples, t⟩ ⟨.measurement, m⟩
  | class_ {e : Environment} {c : Class} : e.class_ = some c →
      Child ⟨.environment, e⟩ ⟨.class_, c⟩
  | mval {m : Measurement} {v : Mval} : m.value = some v → Child ⟨.measurement, m⟩ ⟨.mval, v⟩
  | version {v : Mval} {w : Version} : v.version = some w → Child ⟨.mval, v⟩ ⟨.version, w⟩
  | tag {x : UnsignedCorim} {c : Comid} : c ∈ x.tags → Child ⟨.unsignedCorim, x⟩ ⟨.comid, c⟩
  | rimValidity {x : UnsignedCorim} {w : Validity} : x.rimValidity = some w →
      Child ⟨.unsignedCorim, x⟩ ⟨.validity, w⟩
  | corimEntity {x : UnsignedCorim} {e : Entity} : e ∈ x.entities →
      Child ⟨.unsignedCorim, x⟩ ⟨.entity, e⟩
  | signer {m : Meta} {s : Signer} : m.signer = some s → Child ⟨.meta_, m⟩ ⟨.signer, s⟩
  | metaValidity {m : Meta} {w : Validity} : m.validity = some w →
      Child ⟨.meta_, m⟩ ⟨.validity, w⟩

/-- The records that are written as parts of a record at any depth, and the record itself. -/
def Within (whole part : AnyRecord) : Prop := Relation.ReflTransGen Child whole part

end AnyRecord

theorem present?_of_mem {α : Type} {xs : List α} {a : α} (h : a ∈ xs) : present? xs = some xs := by
  unfold present?
  rw [if_neg]
  rw [List.isEmpty_iff]
  exact List.ne_nil_of_mem h

namespace AnyRecord

/-- A part of a record is shown by one of its fields. -/
theorem Child.shown {whole part : AnyRecord} (h : Child whole part) :
    ∃ x ∈ Record.fields (R := whole.1.Carrier), ∃ a, x.get whole.2 = some a ∧
      x.wire.Shows a part := by
  have triples {t : Triples} {v : ValueTriple} {part : AnyRecord}
      (hv : v ∈ t.referenceValues ∨ v ∈ t.endorsedValues) (h : ValueTriple.wire.Shows v part) :
      ∃ x ∈ Triples.fields, ∃ a, x.get t = some a ∧ x.wire.Shows a part := by
    rcases hv with hv | hv
    · exact ⟨Triples.fields[0], List.getElem_mem _, _, present?_of_mem hv, h.list hv⟩
    · exact ⟨Triples.fields[1], List.getElem_mem _, _, present?_of_mem hv, h.list hv⟩
  cases h with
  | tagIdentity h =>
    exact ⟨Comid.fields[1], List.getElem_mem _, _, h, Wire.shows_record .tagIdentity _⟩
  | comidEntity h =>
    exact ⟨Comid.fields[2], List.getElem_mem _, _, present?_of_mem h,
      (Wire.shows_record .entity _).list h⟩
  | triples h =>
    exact ⟨Comid.fields[3], List.getElem_mem _, _, if_neg (by simp [h]),
      Wire.shows_record .triples _⟩
  | environment hv => exact triples hv (ValueTriple.shows_environment _)
  | measurement hv hm => exact triples hv (ValueTriple.shows_measurement hm)
  | class_ h =>
    exact ⟨Environment.fields[0], List.getElem_mem _, _, h, Wire.shows_record .class_ _⟩
  | mval h => exact ⟨Measurement.fields[0], List.getElem_mem _, _, h, Wire.shows_record .mval _⟩
  | version h => exact ⟨Mval.fields[0], List.getElem_mem _, _, h, Wire.shows_record .version _⟩
  | tag h =>
    exact ⟨UnsignedCorim.fields[1], List.getElem_mem _, _, present?_of_mem h,
      (Comid.shows_embedded _).list h⟩
  | rimValidity h =>
    exact ⟨UnsignedCorim.fields[3], List.getElem_mem _, _, h, Wire.shows_record .validity _⟩
  | corimEntity h =>
    exact ⟨UnsignedCorim.fields[4], List.getElem_mem _, _, present?_of_mem h,
      (Wire.shows_record .entity _).list h⟩
  | signer h => exact ⟨Meta.fields[0], List.getElem_mem _, _, h, Wire.shows_record .signer _⟩
  | metaValidity h =>
    exact ⟨Meta.fields[1], List.getElem_mem _, _, h, Wire.shows_record .validity _⟩

/-- A part of a record brings no extension sets but those of the record. -/
theorem Child.parts_subset {whole part : AnyRecord} (h : Child whole part) :
    Graph.parts part.2 ⊆ Graph.parts whole.2 := by
  cases h with
  | tagIdentity h => exact Comid.parts_tagIdentity h
  | comidEntity h => exact Comid.parts_entity h
  | triples => exact Comid.parts_triples _
  | environment hv =>
    refine List.Subset.trans (ValueTriple.parts_environment _) ?_
    exact hv.elim Triples.parts_referenceValue Triples.parts_endorsedValue
  | measurement hv hm =>
    refine List.Subset.trans (ValueTriple.parts_measurement hm) ?_
    exact hv.elim Triples.parts_referenceValue Triples.parts_endorsedValue
  | class_ h => exact Environment.parts_class h
  | mval h => exact Measurement.parts_value h
  | version => exact List.nil_subset _
  | tag h =>
    exact List.Subset.trans (UnsignedCorim.sealedParts_tag h) (UnsignedCorim.sealedParts_subset _)
  | rimValidity h => exact UnsignedCorim.parts_rimValidity h
  | corimEntity h => exact UnsignedCorim.parts_entity h
  | signer => exact List.nil_subset _
  | metaValidity h => exact Meta.parts_validity h

theorem Within.parts_subset {whole part : AnyRecord} (h : Within whole part) :
    Graph.parts part.2 ⊆ Graph.parts whole.2 := by
  induction h with
  | refl => exact List.Subset.refl _
  | tail _ hchild ih => exact List.Subset.trans hchild.parts_subset ih

end AnyRecord

/-! ## Sets that have been bound -/

/-- The set has the shape that a map which has been built holds for the point. A set that has not
been bound has that of the empty map. -/
def ExtensionSet.FromMap (allowed : ExtensionPoint → Prop) (point : ExtensionPoint)
    (set : ExtensionSet) : Prop :=
  ∃ m : ExtensionMap, m.Built allowed ∧ set.shape = m.find? point

namespace ExtensionSet

variable {allowed : ExtensionPoint → Prop} {point : ExtensionPoint} {set : ExtensionSet}

/-- Binding a set to a map gives it the shape that the map holds, or leaves it its own. -/
theorem FromMap.bindOptional {m : ExtensionMap} (hm : m.Built allowed)
    (h : set.FromMap allowed point) :
    (set.bindOptional (m.find? point)).FromMap allowed point := by
  cases hshape : m.find? point with
  | none => exact h
  | some shape =>
    refine ⟨m, hm, ?_⟩
    rw [hshape, ExtensionSet.bindOptional, ExtensionSet.bind]
    cases set.shape <;> rfl

end ExtensionSet

namespace RecordKind

variable {P : ExtensionPoint → ExtensionSet → Prop}

/-- The sets of an empty record are empty. -/
theorem everySet_empty (k : RecordKind) (hP : ∀ point, P point .empty) :
    Graph.EverySet P (Record.empty : k.Carrier) := by
  have htriples : Graph.EverySet P ({} : Triples) :=
    (Triples.everySet_iff _).2 ⟨⟨List.forall_mem_nil _, List.forall_mem_nil _⟩, hP _⟩
  cases k with
  | comid => exact (Comid.everySet_iff _).2 ⟨⟨List.forall_mem_nil _, htriples⟩, hP _⟩
  | entity => exact (Entity.everySet_iff _).2 (hP _)
  | triples => exact htriples
  | environment =>
    exact (Environment.everySet_iff _).2 fun _ h => absurd h (Option.some_ne_none _).symm
  | class_ => exact (Class.everySet_iff _).2 (hP _)
  | measurement =>
    exact (Measurement.everySet_iff _).2 fun _ h => absurd h (Option.some_ne_none _).symm
  | mval => exact (Mval.everySet_iff _).2 (hP _)
  | unsignedCorim =>
    exact (UnsignedCorim.everySet_iff _).2 ⟨⟨List.forall_mem_nil _, List.forall_mem_nil _⟩, hP _⟩
  | tagIdentity => exact TagIdentity.everySet _
  | version => exact Version.everySet _
  | meta_ => exact Meta.everySet _
  | signer => exact Signer.everySet _
  | validity => exact Validity.everySet _

/-- The own set of a record is one of those of its graph. -/
theorem ownSet_has (k : RecordKind) {r : k.Carrier} (h : Graph.EverySet P r) :
    ∀ point, Record.point? k.Carrier = some point → P point (Record.ownSet r) := by
  cases k with
  | comid => rintro _ ⟨⟩; exact ((Comid.everySet_iff _).1 h).2
  | entity => rintro _ ⟨⟩; exact (Entity.everySet_iff _).1 h
  | triples => rintro _ ⟨⟩; exact ((Triples.everySet_iff _).1 h).2
  | class_ => rintro _ ⟨⟩; exact (Class.everySet_iff _).1 h
  | mval => rintro _ ⟨⟩; exact (Mval.everySet_iff _).1 h
  | unsignedCorim => rintro _ ⟨⟩; exact ((UnsignedCorim.everySet_iff _).1 h).2
  | _ => nofun

variable {allowed : ExtensionPoint → Prop} {f : Form} {types : TypeTable}

end RecordKind

/-! ## Every record of a graph -/

namespace AnyRecord

/-- What holds of all sets of a graph holds of the own sets of the records in it. -/
theorem Within.ownSet_has {P : ExtensionPoint → ExtensionSet → Prop} {whole part : AnyRecord}
    (h : Within whole part) (hwhole : Graph.EverySet P whole.2) :
    ∀ point, Record.point? part.1.Carrier = some point → P point (Record.ownSet part.2) :=
  part.1.ownSet_has fun p hp => hwhole p (h.parts_subset hp)

variable {allowed : ExtensionPoint → Prop} {f : Form} {types : TypeTable}

/-- Where a record is laid out its parts are written. -/
theorem Child.encode {whole part : AnyRecord} (h : Child whole part) {v : f.Value}
    (hv : Record.LaidOut f types whole.2 v) :
    ∃ u, Record.encode f types part.2 = .ok u ∧ f.Within v u := by
  obtain ⟨x, hx, a, ha, hshows⟩ := h.shown
  obtain ⟨fixed, extensions, hlayout⟩ := hv
  have hpresent : x ∈ Record.present whole.2 := List.mem_filter.2 ⟨hx, by simp [ha]⟩
  obtain ⟨e, he, hkey, b, hb, hcontent⟩ :=
    exists_mem_right_of_forall₂ hlayout.of_present x hpresent
  obtain rfl : a = b := Option.some.inj (ha.symm.trans hb)
  obtain ⟨u, hu, hwithin⟩ := hshows f types e.2 hcontent
  have hmember : (f.rawKey e.1, e.2) ∈ f.raw (fixed ++ extensions) :=
    List.mem_map_of_mem (List.mem_append_left _ he)
  exact ⟨u, hu, .head (.member hlayout.members hmember) hwithin⟩

end AnyRecord

end Rim
