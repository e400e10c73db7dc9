import Rim.Proofs.Record.Graph
import Rim.Proofs.Schema.Invariant

/-!
# Records whose extension sets are bound

* `ExtensionSet.BoundTo`: a set has the shape that is in force for its record, and giving it that
  shape again changes nothing.
* `Graph.EverySet`: what holds of all extension sets of a record graph and their points;
  `Comid.everySet_iff` and its siblings take one record apart.
* `Graph.Bound`: every set is bound to the shape that a map holds for its point.
-/

namespace Rim

/-! ## Extension sets -/

namespace ExtensionSet

/-- The set has the given shape, or none, and giving it that shape again changes nothing. -/
structure BoundTo (set : ExtensionSet) (shape? : Option ExtensionShape) : Prop where
  shape : set.shape = shape?
  rebind : set.bindOptional shape? = set

theorem survives_self {shape : ExtensionShape} {key : String} :
    survives shape shape key = true ↔ (shape.byKey? key).isSome = true := by
  unfold survives
  cases shape.byKey? key <;> simp

/-- A set with a shape is bound to it exactly if the shape declares all it holds. -/
theorem boundTo_iff_declared {set : ExtensionSet} {shape : ExtensionShape} :
    set.BoundTo (some shape) ↔
      set.shape = some shape ∧ ∀ e ∈ set.entries, (shape.byKey? e.1).isSome = true := by
  constructor
  · rintro ⟨hshape, hset⟩
    exact ⟨hshape, fun e he => survives_self.1 ((bind_eq_self_iff hshape).1 hset e he)⟩
  · rintro ⟨hshape, hdeclared⟩
    exact ⟨hshape, (bind_eq_self_iff hshape).2 fun e he => survives_self.2 (hdeclared e he)⟩

/-- A new set is bound by giving it a shape, or none. -/
theorem boundTo_bindOptional (shape? : Option ExtensionShape) :
    (empty.bindOptional shape?).BoundTo shape? := by
  cases shape? with
  | none => exact ⟨rfl, rfl⟩
  | some shape => exact boundTo_iff_declared.2 ⟨rfl, fun e he => absurd he List.not_mem_nil⟩

theorem boundTo_empty_iff {shape? : Option ExtensionShape} :
    empty.BoundTo shape? ↔ shape? = none := by
  constructor
  · exact fun h => h.shape.symm
  · rintro rfl
    exact ⟨rfl, rfl⟩

/-- A set stays bound when a declared value is stored. -/
theorem BoundTo.setDecoded {set : ExtensionSet} {shape : ExtensionShape} {key : String}
    (h : set.BoundTo (some shape)) (hkey : (shape.byKey? key).isSome = true)
    (value : ExtensionValue) : (set.setDecoded key value).BoundTo (some shape) := by
  obtain ⟨hshape, hdeclared⟩ := boundTo_iff_declared.1 h
  refine boundTo_iff_declared.2 ⟨hshape, fun e he => ?_⟩
  rcases Keyed.mem_insert he with rfl | he
  · exact hkey
  · exact hdeclared e he

/-- A bound set takes every value that its shape declares. -/
theorem BoundTo.exists_set {set : ExtensionSet} {shape : ExtensionShape} {x : ExtensionField}
    {key : String} {value : ExtensionValue} (h : set.BoundTo (some shape))
    (hx : shape.byKey? key = some x) (htype : x.type.same value.type = true) :
    ∃ next, set.set key value = .ok next :=
  exists_set_iff.2 ⟨shape, x, h.shape, hx, htype⟩

end ExtensionSet

/-! ## Graphs -/

/-- What holds of an extension set and its point. -/
def Part.SetHas (P : ExtensionPoint → ExtensionSet → Prop) : Part → Prop
  | .extensions point set => P point set
  | _ => True

/-- What holds of all extension sets of a record graph and their points. -/
def Graph.EverySet {R : Type} [Graph R] (P : ExtensionPoint → ExtensionSet → Prop) (r : R) : Prop :=
  ∀ p ∈ Graph.parts r, p.SetHas P

section

variable {P : ExtensionPoint → ExtensionSet → Prop} {R : Type} [Graph R]

theorem Graph.EverySet.imp {Q : ExtensionPoint → ExtensionSet → Prop} {r : R}
    (h : Graph.EverySet P r) (hPQ : ∀ point set, P point set → Q point set) :
    Graph.EverySet Q r := by
  intro p hp
  cases p with
  | extensions point set => exact hPQ point set (h _ hp)
  | _ => trivial

/-- Type choices are no extension sets. -/
theorem Part.everySet_choices (family : Family) (value? : Option ChoiceValue) :
    (∀ p ∈ value?.toList.map (Part.choice family), p.SetHas P) ↔ True := by
  simp [Part.SetHas]

theorem Part.everySet_extensions (point : ExtensionPoint) (set : ExtensionSet) :
    (∀ p ∈ [Part.extensions point set], p.SetHas P) ↔ P point set :=
  List.forall_mem_singleton

theorem Graph.everySet_list (rs : List R) :
    (∀ p ∈ rs.flatMap Graph.parts, p.SetHas P) ↔ ∀ r ∈ rs, Graph.EverySet P r :=
  List.forall_mem_flatMap

theorem Graph.everySet_option (r? : Option R) :
    (∀ p ∈ r?.toList.flatMap Graph.parts, p.SetHas P) ↔ ∀ r, r? = some r → Graph.EverySet P r := by
  simp only [Graph.everySet_list, Option.mem_toList]

theorem TagIdentity.everySet (t : TagIdentity) : Graph.EverySet P t :=
  (Part.everySet_choices .tagId t.tagId).2 trivial

theorem Entity.everySet_iff (e : Entity) : Graph.EverySet P e ↔ P .entities e.extensions := by
  show (∀ p ∈ e.name.toList.map (Part.choice .entityName) ++
    [Part.extensions .entities e.extensions], p.SetHas P) ↔ _
  rw [List.forall_mem_append, Part.everySet_choices, Part.everySet_extensions, true_and]

theorem Class.everySet_iff (c : Class) : Graph.EverySet P c ↔ P .classes c.extensions := by
  show (∀ p ∈ c.classId.toList.map (Part.choice .classId) ++
    [Part.extensions .classes c.extensions], p.SetHas P) ↔ _
  rw [List.forall_mem_append, Part.everySet_choices, Part.everySet_extensions, true_and]

theorem Environment.everySet_iff (e : Environment) :
    Graph.EverySet P e ↔ ∀ c, e.class_ = some c → Graph.EverySet P c :=
  Graph.everySet_option e.class_

theorem Version.everySet (v : Version) : Graph.EverySet P v :=
  fun _ hp => absurd hp List.not_mem_nil

theorem Mval.everySet_iff (v : Mval) : Graph.EverySet P v ↔ P .mval v.extensions :=
  Part.everySet_extensions .mval v.extensions

theorem Measurement.everySet_iff (x : Measurement) :
    Graph.EverySet P x ↔ ∀ v, x.value = some v → Graph.EverySet P v :=
  Graph.everySet_option x.value

theorem ValueTriple.everySet_iff (t : ValueTriple) :
    Graph.EverySet P t ↔
      Graph.EverySet P t.environment ∧ ∀ x ∈ t.measurements, Graph.EverySet P x := by
  show (∀ p ∈ Graph.parts t.environment ++ t.measurements.flatMap Graph.parts, p.SetHas P) ↔ _
  rw [List.forall_mem_append, Graph.everySet_list]
  rfl

theorem Triples.everySet_iff (t : Triples) :
    Graph.EverySet P t ↔ ((∀ v ∈ t.referenceValues, Graph.EverySet P v) ∧
      ∀ v ∈ t.endorsedValues, Graph.EverySet P v) ∧ P .triples t.extensions := by
  show (∀ p ∈ t.referenceValues.flatMap Graph.parts ++ t.endorsedValues.flatMap Graph.parts ++
    [Part.extensions .triples t.extensions], p.SetHas P) ↔ _
  rw [List.forall_mem_append, List.forall_mem_append, Graph.everySet_list, Graph.everySet_list,
    Part.everySet_extensions]

theorem Comid.everySet_iff (c : Comid) :
    Graph.EverySet P c ↔
      ((∀ e ∈ c.entities, Graph.EverySet P e) ∧ Graph.EverySet P c.triples) ∧
        P .comids c.extensions := by
  show (∀ p ∈ c.tagIdentity.toList.flatMap Graph.parts ++ c.entities.flatMap Graph.parts ++
    Graph.parts c.triples ++ [Part.extensions .comids c.extensions], p.SetHas P) ↔ _
  rw [List.forall_mem_append, List.forall_mem_append, List.forall_mem_append, Graph.everySet_list,
    Graph.everySet_list, Part.everySet_extensions]
  simp only [TagIdentity.everySet, implies_true, true_and]
  rfl

/-- Times are no extension sets. -/
theorem Validity.everySet (w : Validity) : Graph.EverySet P w := by
  show ∀ p ∈ w.notBefore.toList.map Part.time ++ w.notAfter.toList.map Part.time, p.SetHas P
  simp [Part.SetHas, or_imp, forall_and]

theorem UnsignedCorim.everySet_iff (x : UnsignedCorim) :
    Graph.EverySet P x ↔
      ((∀ c ∈ x.tags, Graph.EverySet P c) ∧ ∀ e ∈ x.entities, Graph.EverySet P e) ∧
        P .corims x.extensions := by
  show (∀ p ∈ x.id.toList.map (Part.choice .corimId) ++ x.tags.flatMap Graph.parts ++
    x.profile.toList.map Part.profile ++ x.rimValidity.toList.flatMap Graph.parts ++
    x.entities.flatMap Graph.parts ++ [Part.extensions .corims x.extensions], p.SetHas P) ↔ _
  rw [List.forall_mem_append, List.forall_mem_append, List.forall_mem_append,
    List.forall_mem_append, List.forall_mem_append, Part.everySet_choices, Graph.everySet_list,
    Graph.everySet_list, Graph.everySet_list, Part.everySet_extensions]
  simp [Validity.everySet, Part.SetHas]

theorem Signer.everySet (s : Signer) : Graph.EverySet P s :=
  fun _ hp => absurd hp List.not_mem_nil

theorem Meta.everySet (x : Meta) : Graph.EverySet P x :=
  (Graph.everySet_option x.validity).2 fun w _ => w.everySet

end

/-- Every extension set of a record graph is bound to the shape that a map holds for its point. -/
def Graph.Bound {R : Type} [Graph R] (m : ExtensionMap) (r : R) : Prop :=
  Graph.EverySet (fun point set => set.BoundTo (m.find? point)) r

end Rim
