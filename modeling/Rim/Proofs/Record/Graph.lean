import Rim.Proofs.Record.Laws
import Rim.Proofs.Time.Instant

/-!
# What record graphs hold

* `Part`: the values of a record graph that do not come back whatever they are: type choices,
  extension sets, times and profile identifiers.
* `Graph`: the parts of a record and of all the records in it, and their extension sets.
* `Comid.beq_iff` and its siblings: when records are the same data.
* `Comid.forall_parts` and its siblings: all parts of a record are those of its fields and its set.
* `Part.Portable`, `Part.Clear`, `Part.Plain`: what a part has to be like to be carried through a
  form.
* `RecordKind`: the kinds of records of the base schema.
-/

namespace Rim

/-- A value of a record graph that does not come back whatever it is. -/
inductive Part where
  | choice (family : Family) (value : ChoiceValue)
  | extensions (point : ExtensionPoint) (set : ExtensionSet)
  | time (t : Instant)
  | profile (id : ProfileId)

/-- A record with all the records in it. -/
class Graph (R : Type) where
  parts : R → List Part
  /-- The parts that stand in octet strings in the binary form. -/
  sealedParts : R → List Part := fun _ => []
  /-- Changes every extension set. -/
  mapSets : (ExtensionSet → ExtensionSet) → R → R
  /-- The profile that the record names for itself and all it holds. -/
  profile? : R → Option ProfileId := fun _ => none

/-! ## The kinds of records -/

instance : Graph TagIdentity where
  parts t := t.tagId.toList.map (.choice .tagId)
  mapSets _ t := t

instance : Graph Entity where
  parts e := e.name.toList.map (.choice .entityName) ++ [.extensions .entities e.extensions]
  mapSets g e := { e with extensions := g e.extensions }

instance : Graph Class where
  parts c := c.classId.toList.map (.choice .classId) ++ [.extensions .classes c.extensions]
  mapSets g c := { c with extensions := g c.extensions }

instance : Graph Environment where
  parts e := e.class_.toList.flatMap Graph.parts
  mapSets g e := { e with class_ := e.class_.map (Graph.mapSets g) }

instance : Graph Version where
  parts _ := []
  mapSets _ v := v

instance : Graph Mval where
  parts m := [.extensions .mval m.extensions]
  mapSets g m := { m with extensions := g m.extensions }

instance : Graph Measurement where
  parts m := m.value.toList.flatMap Graph.parts
  mapSets g m := { m with value := m.value.map (Graph.mapSets g) }

instance : Graph ValueTriple where
  parts t := Graph.parts t.environment ++ t.measurements.flatMap Graph.parts
  mapSets g t :=
    { environment := Graph.mapSets g t.environment
      measurements := t.measurements.map (Graph.mapSets g) }

instance : Graph Triples where
  parts t := t.referenceValues.flatMap Graph.parts ++ t.endorsedValues.flatMap Graph.parts ++
    [.extensions .triples t.extensions]
  mapSets g t :=
    { referenceValues := t.referenceValues.map (Graph.mapSets g)
      endorsedValues := t.endorsedValues.map (Graph.mapSets g)
      extensions := g t.extensions }

instance : Graph Comid where
  parts c := c.tagIdentity.toList.flatMap Graph.parts ++ c.entities.flatMap Graph.parts ++
    Graph.parts c.triples ++ [.extensions .comids c.extensions]
  mapSets g c :=
    { c with
      entities := c.entities.map (Graph.mapSets g)
      triples := Graph.mapSets g c.triples
      extensions := g c.extensions }

instance : Graph Validity where
  parts w := w.notBefore.toList.map .time ++ w.notAfter.toList.map .time
  mapSets _ w := w

instance : Graph UnsignedCorim where
  parts m := m.id.toList.map (.choice .corimId) ++ m.tags.flatMap Graph.parts ++
    m.profile.toList.map .profile ++ m.rimValidity.toList.flatMap Graph.parts ++
    m.entities.flatMap Graph.parts ++ [.extensions .corims m.extensions]
  sealedParts m := m.tags.flatMap Graph.parts
  mapSets g m :=
    { m with
      tags := m.tags.map (Graph.mapSets g)
      entities := m.entities.map (Graph.mapSets g)
      extensions := g m.extensions }
  profile? m := m.profile

instance : Graph Signer where
  parts _ := []
  mapSets _ s := s

instance : Graph Meta where
  parts m := m.validity.toList.flatMap Graph.parts
  mapSets _ m := m

/-! ## Equality of data -/

theorem Entity.beq_iff {x y : Entity} :
    (x == y) = true ↔ (x.name == y.name) = true ∧ x.regId = y.regId ∧ x.roles = y.roles ∧
      (x.extensions == y.extensions) = true := by
  show (x.name == y.name && (x.regId == y.regId && (x.roles == y.roles &&
    x.extensions == y.extensions))) = true ↔ _
  simp only [Bool.and_eq_true, beq_iff_eq]

theorem Class.beq_iff {x y : Class} :
    (x == y) = true ↔ (x.classId == y.classId) = true ∧ x.vendor = y.vendor ∧
      x.model = y.model ∧ x.layer = y.layer ∧ x.index = y.index ∧
        (x.extensions == y.extensions) = true := by
  show (x.classId == y.classId && (x.vendor == y.vendor && (x.model == y.model &&
    (x.layer == y.layer && (x.index == y.index && x.extensions == y.extensions))))) = true ↔ _
  simp only [Bool.and_eq_true, beq_iff_eq]

theorem Mval.beq_iff {x y : Mval} :
    (x == y) = true ↔ x.version = y.version ∧ x.svn = y.svn ∧ x.digests = y.digests ∧
      x.serialNumber = y.serialNumber ∧ x.name = y.name ∧
        (x.extensions == y.extensions) = true := by
  show (x.version == y.version && (x.svn == y.svn && (x.digests == y.digests &&
    (x.serialNumber == y.serialNumber && (x.name == y.name &&
      x.extensions == y.extensions))))) = true ↔ _
  simp only [Bool.and_eq_true, beq_iff_eq]

theorem ValueTriple.beq_iff {x y : ValueTriple} :
    (x == y) = true ↔
      (x.environment == y.environment) = true ∧ (x.measurements == y.measurements) = true :=
  Bool.and_eq_true_iff

theorem Triples.beq_iff {x y : Triples} :
    (x == y) = true ↔ (x.referenceValues == y.referenceValues) = true ∧
      (x.endorsedValues == y.endorsedValues) = true ∧ (x.extensions == y.extensions) = true := by
  show (x.referenceValues == y.referenceValues && (x.endorsedValues == y.endorsedValues &&
    x.extensions == y.extensions)) = true ↔ _
  simp only [Bool.and_eq_true]

theorem Comid.beq_iff {x y : Comid} :
    (x == y) = true ↔ x.language = y.language ∧ (x.tagIdentity == y.tagIdentity) = true ∧
      (x.entities == y.entities) = true ∧ (x.triples == y.triples) = true ∧
        (x.extensions == y.extensions) = true := by
  show (x.language == y.language && (x.tagIdentity == y.tagIdentity &&
    (x.entities == y.entities && (x.triples == y.triples && x.extensions == y.extensions)))) =
      true ↔ _
  simp only [Bool.and_eq_true, beq_iff_eq (a := x.language)]

theorem UnsignedCorim.beq_iff {x y : UnsignedCorim} :
    (x == y) = true ↔ (x.id == y.id) = true ∧ (x.tags == y.tags) = true ∧
      x.profile = y.profile ∧ x.rimValidity = y.rimValidity ∧ (x.entities == y.entities) = true ∧
        (x.extensions == y.extensions) = true := by
  show (x.id == y.id && (x.tags == y.tags && (x.profile == y.profile &&
    (x.rimValidity == y.rimValidity && (x.entities == y.entities &&
      x.extensions == y.extensions))))) = true ↔ _
  simp only [Bool.and_eq_true, beq_iff_eq (a := x.profile), beq_iff_eq (a := x.rimValidity)]

/-! ## The parts of the records inside -/

theorem Environment.parts_class {e : Environment} {c : Class} (h : e.class_ = some c) :
    Graph.parts c ⊆ Graph.parts e := fun _ hp =>
  List.mem_flatMap.2 ⟨c, by simp [h], hp⟩

theorem Measurement.parts_value {m : Measurement} {v : Mval} (h : m.value = some v) :
    Graph.parts v ⊆ Graph.parts m := fun _ hp =>
  List.mem_flatMap.2 ⟨v, by simp [h], hp⟩

theorem ValueTriple.parts_environment (t : ValueTriple) :
    Graph.parts t.environment ⊆ Graph.parts t := fun _ hp => List.mem_append_left _ hp

theorem ValueTriple.parts_measurement {t : ValueTriple} {m : Measurement}
    (h : m ∈ t.measurements) : Graph.parts m ⊆ Graph.parts t := fun _ hp =>
  List.mem_append_right _ (List.mem_flatMap.2 ⟨m, h, hp⟩)

theorem Triples.parts_referenceValue {t : Triples} {v : ValueTriple} (h : v ∈ t.referenceValues) :
    Graph.parts v ⊆ Graph.parts t := fun _ hp =>
  List.mem_append_left _ (List.mem_append_left _ (List.mem_flatMap.2 ⟨v, h, hp⟩))

theorem Triples.parts_endorsedValue {t : Triples} {v : ValueTriple} (h : v ∈ t.endorsedValues) :
    Graph.parts v ⊆ Graph.parts t := fun _ hp =>
  List.mem_append_left _ (List.mem_append_right _ (List.mem_flatMap.2 ⟨v, h, hp⟩))

theorem Comid.parts_tagIdentity {c : Comid} {t : TagIdentity} (h : c.tagIdentity = some t) :
    Graph.parts t ⊆ Graph.parts c := fun _ hp =>
  List.mem_append_left _ (List.mem_append_left _ (List.mem_append_left _
    (List.mem_flatMap.2 ⟨t, by simp [h], hp⟩)))

theorem Comid.parts_entity {c : Comid} {e : Entity} (h : e ∈ c.entities) :
    Graph.parts e ⊆ Graph.parts c := fun _ hp =>
  List.mem_append_left _ (List.mem_append_left _ (List.mem_append_right _
    (List.mem_flatMap.2 ⟨e, h, hp⟩)))

theorem Comid.parts_triples (c : Comid) : Graph.parts c.triples ⊆ Graph.parts c := fun _ hp =>
  List.mem_append_left _ (List.mem_append_right _ hp)

theorem UnsignedCorim.sealedParts_subset (m : UnsignedCorim) :
    Graph.sealedParts m ⊆ Graph.parts m := fun _ hp =>
  List.mem_append_left _ (List.mem_append_left _ (List.mem_append_left _ (List.mem_append_left _
    (List.mem_append_right _ hp))))

theorem UnsignedCorim.sealedParts_tag {m : UnsignedCorim} {c : Comid} (h : c ∈ m.tags) :
    Graph.parts c ⊆ Graph.sealedParts m := fun _ hp => List.mem_flatMap.2 ⟨c, h, hp⟩

theorem UnsignedCorim.parts_rimValidity {m : UnsignedCorim} {w : Validity}
    (h : m.rimValidity = some w) : Graph.parts w ⊆ Graph.parts m := fun _ hp =>
  List.mem_append_left _ (List.mem_append_left _ (List.mem_append_right _
    (List.mem_flatMap.2 ⟨w, by simp [h], hp⟩)))

theorem UnsignedCorim.parts_entity {m : UnsignedCorim} {e : Entity} (h : e ∈ m.entities) :
    Graph.parts e ⊆ Graph.parts m := fun _ hp =>
  List.mem_append_left _ (List.mem_append_right _ (List.mem_flatMap.2 ⟨e, h, hp⟩))

theorem Meta.parts_validity {m : Meta} {w : Validity} (h : m.validity = some w) :
    Graph.parts w ⊆ Graph.parts m := fun _ hp =>
  List.mem_flatMap.2 ⟨w, by simp [h], hp⟩

/-! ## What holds of all parts -/

section

variable {P : Part → Prop}

theorem TagIdentity.forall_parts (t : TagIdentity) :
    (∀ p ∈ Graph.parts t, P p) ↔ ∀ value, t.tagId = some value → P (.choice .tagId value) := by
  simp [Graph.parts]

theorem Entity.forall_parts (e : Entity) :
    (∀ p ∈ Graph.parts e, P p) ↔ (∀ value, e.name = some value → P (.choice .entityName value)) ∧
      P (.extensions .entities e.extensions) := by
  simp [Graph.parts, or_imp, forall_and]

theorem Class.forall_parts (c : Class) :
    (∀ p ∈ Graph.parts c, P p) ↔ (∀ value, c.classId = some value → P (.choice .classId value)) ∧
      P (.extensions .classes c.extensions) := by
  simp [Graph.parts, or_imp, forall_and]

theorem Environment.forall_parts (e : Environment) :
    (∀ p ∈ Graph.parts e, P p) ↔ ∀ c, e.class_ = some c → ∀ p ∈ Graph.parts c, P p := by
  cases h : e.class_ <;> simp [Graph.parts, h]

theorem Mval.forall_parts (m : Mval) :
    (∀ p ∈ Graph.parts m, P p) ↔ P (.extensions .mval m.extensions) := by
  simp [Graph.parts]

theorem Measurement.forall_parts (m : Measurement) :
    (∀ p ∈ Graph.parts m, P p) ↔ ∀ v, m.value = some v → ∀ p ∈ Graph.parts v, P p := by
  cases h : m.value <;> simp [Graph.parts, h]

theorem ValueTriple.forall_parts (t : ValueTriple) :
    (∀ p ∈ Graph.parts t, P p) ↔ (∀ p ∈ Graph.parts t.environment, P p) ∧
      ∀ m ∈ t.measurements, ∀ p ∈ Graph.parts m, P p :=
  List.forall_mem_append.trans (and_congr_right' List.forall_mem_flatMap)

theorem Triples.forall_parts (t : Triples) :
    (∀ p ∈ Graph.parts t, P p) ↔ (∀ v ∈ t.referenceValues, ∀ p ∈ Graph.parts v, P p) ∧
      (∀ v ∈ t.endorsedValues, ∀ p ∈ Graph.parts v, P p) ∧
        P (.extensions .triples t.extensions) := by
  show (∀ p ∈ t.referenceValues.flatMap Graph.parts ++ t.endorsedValues.flatMap Graph.parts ++
    [.extensions .triples t.extensions], P p) ↔ _
  simp only [List.forall_mem_append, List.forall_mem_flatMap, List.forall_mem_singleton, and_assoc]

theorem Comid.forall_parts (c : Comid) :
    (∀ p ∈ Graph.parts c, P p) ↔
      (∀ t, c.tagIdentity = some t → ∀ p ∈ Graph.parts t, P p) ∧
        (∀ e ∈ c.entities, ∀ p ∈ Graph.parts e, P p) ∧ (∀ p ∈ Graph.parts c.triples, P p) ∧
          P (.extensions .comids c.extensions) := by
  show (∀ p ∈ c.tagIdentity.toList.flatMap Graph.parts ++ c.entities.flatMap Graph.parts ++
    Graph.parts c.triples ++ [.extensions .comids c.extensions], P p) ↔ _
  simp only [List.forall_mem_append, List.forall_mem_flatMap, List.forall_mem_singleton, and_assoc,
    Option.mem_toList]

theorem Validity.forall_parts (w : Validity) :
    (∀ p ∈ Graph.parts w, P p) ↔ (∀ t, w.notBefore = some t → P (.time t)) ∧
      ∀ t, w.notAfter = some t → P (.time t) := by
  simp [Graph.parts, or_imp, forall_and]

theorem UnsignedCorim.forall_parts (m : UnsignedCorim) :
    (∀ p ∈ Graph.parts m, P p) ↔
      (∀ value, m.id = some value → P (.choice .corimId value)) ∧
        (∀ c ∈ m.tags, ∀ p ∈ Graph.parts c, P p) ∧
          (∀ id, m.profile = some id → P (.profile id)) ∧
            (∀ w, m.rimValidity = some w → ∀ p ∈ Graph.parts w, P p) ∧
              (∀ e ∈ m.entities, ∀ p ∈ Graph.parts e, P p) ∧
                P (.extensions .corims m.extensions) := by
  show (∀ p ∈ m.id.toList.map (.choice .corimId) ++ m.tags.flatMap Graph.parts ++
    m.profile.toList.map .profile ++ m.rimValidity.toList.flatMap Graph.parts ++
    m.entities.flatMap Graph.parts ++ [.extensions .corims m.extensions], P p) ↔ _
  simp only [List.forall_mem_append, List.forall_mem_flatMap, List.forall_mem_map,
    List.forall_mem_singleton, and_assoc, Option.mem_toList]

theorem Meta.forall_parts (m : Meta) :
    (∀ p ∈ Graph.parts m, P p) ↔ ∀ w, m.validity = some w → ∀ p ∈ Graph.parts w, P p := by
  cases h : m.validity <;> simp [Graph.parts, h]

end

/-- The kinds of records of the base schema. -/
inductive RecordKind where
  | comid
  | tagIdentity
  | entity
  | triples
  | environment
  | class_
  | measurement
  | mval
  | version
  | unsignedCorim
  | meta_
  | signer
  | validity
  deriving DecidableEq, Repr

namespace RecordKind

/-- The records of a kind. -/
abbrev Carrier : RecordKind → Type
  | comid => Comid
  | tagIdentity => TagIdentity
  | entity => Entity
  | triples => Triples
  | environment => Environment
  | class_ => Class
  | measurement => Measurement
  | mval => Mval
  | version => Version
  | unsignedCorim => UnsignedCorim
  | meta_ => Meta
  | signer => Signer
  | validity => Validity

instance : (k : RecordKind) → Record k.Carrier
  | comid => inferInstanceAs (Record Comid)
  | tagIdentity => inferInstanceAs (Record TagIdentity)
  | entity => inferInstanceAs (Record Entity)
  | triples => inferInstanceAs (Record Triples)
  | environment => inferInstanceAs (Record Environment)
  | class_ => inferInstanceAs (Record Class)
  | measurement => inferInstanceAs (Record Measurement)
  | mval => inferInstanceAs (Record Mval)
  | version => inferInstanceAs (Record Version)
  | unsignedCorim => inferInstanceAs (Record UnsignedCorim)
  | meta_ => inferInstanceAs (Record Meta)
  | signer => inferInstanceAs (Record Signer)
  | validity => inferInstanceAs (Record Validity)

instance : (k : RecordKind) → BEq k.Carrier
  | comid => inferInstanceAs (BEq Comid)
  | tagIdentity => inferInstanceAs (BEq TagIdentity)
  | entity => inferInstanceAs (BEq Entity)
  | triples => inferInstanceAs (BEq Triples)
  | environment => inferInstanceAs (BEq Environment)
  | class_ => inferInstanceAs (BEq Class)
  | measurement => inferInstanceAs (BEq Measurement)
  | mval => inferInstanceAs (BEq Mval)
  | version => inferInstanceAs (BEq Version)
  | unsignedCorim => inferInstanceAs (BEq UnsignedCorim)
  | meta_ => inferInstanceAs (BEq Meta)
  | signer => inferInstanceAs (BEq Signer)
  | validity => inferInstanceAs (BEq Validity)

instance : (k : RecordKind) → Graph k.Carrier
  | comid => inferInstanceAs (Graph Comid)
  | tagIdentity => inferInstanceAs (Graph TagIdentity)
  | entity => inferInstanceAs (Graph Entity)
  | triples => inferInstanceAs (Graph Triples)
  | environment => inferInstanceAs (Graph Environment)
  | class_ => inferInstanceAs (Graph Class)
  | measurement => inferInstanceAs (Graph Measurement)
  | mval => inferInstanceAs (Graph Mval)
  | version => inferInstanceAs (Graph Version)
  | unsignedCorim => inferInstanceAs (Graph UnsignedCorim)
  | meta_ => inferInstanceAs (Graph Meta)
  | signer => inferInstanceAs (Graph Signer)
  | validity => inferInstanceAs (Graph Validity)

instance : (k : RecordKind) → LawfulRecord k.Carrier
  | comid => inferInstanceAs (LawfulRecord Comid)
  | tagIdentity => inferInstanceAs (LawfulRecord TagIdentity)
  | entity => inferInstanceAs (LawfulRecord Entity)
  | triples => inferInstanceAs (LawfulRecord Triples)
  | environment => inferInstanceAs (LawfulRecord Environment)
  | class_ => inferInstanceAs (LawfulRecord Class)
  | measurement => inferInstanceAs (LawfulRecord Measurement)
  | mval => inferInstanceAs (LawfulRecord Mval)
  | version => inferInstanceAs (LawfulRecord Version)
  | unsignedCorim => inferInstanceAs (LawfulRecord UnsignedCorim)
  | meta_ => inferInstanceAs (LawfulRecord Meta)
  | signer => inferInstanceAs (LawfulRecord Signer)
  | validity => inferInstanceAs (LawfulRecord Validity)

end RecordKind

/-! ## Parts -/

namespace Part

/-- What a part has to be like to be carried through a form: choices of built-in variants, sets of
library types with the shape in force, whole seconds, with years of four digits in the text form,
and identifiers that have been parsed. -/
def Portable (f : Form) (sc : Scope) : Part → Prop
  | .choice family value => value.BuiltIn sc.types family
  | .extensions point set => set.Portable (sc.bindings.find? point)
  | .time t => t.Representable ∧ t.nanos = 0 ∧ (f = .text → t.InFourDigits)
  | .profile id => ∃ s, ProfileId.parse s = .ok id

/-- In a form no entry of an extension set stands under the key of a fixed field of its record. -/
def Clear (f : Form) : Part → Prop
  | .extensions point set => set.Clear f point.fixed
  | _ => True

/-- A part that is carried through a form and leaves the fixed fields their keys. -/
def Restorable (f : Form) (sc : Scope) (p : Part) : Prop := p.Portable f sc ∧ p.Clear f

/-- A choice that the binary form does not write as a short byte string under the tag of a big
number which would be read as another item. -/
def Plain (types : TypeTable) : Part → Prop
  | .choice family value => ∀ v number payload, types.byTypeTag? family value.typeTag = some v →
      v.discriminator = .tag number → value.toCbor = .ok payload →
      ¬ Cbor.IsShortNumber number payload
  | _ => True

end Part

end Rim
