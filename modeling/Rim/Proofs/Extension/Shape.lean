import Rim.Extension.Shape
import Rim.Proofs.Keyed

/-!
# Shapes declare each field once

* `ExtensionShape.Distinct`: no two fields of a shape share a key, a slot or a name.
* `ExtensionShape.distinct_ofFields`: shapes built field by field are distinct.
* `ExtensionShape.byKey?_of_mem`, `ExtensionShape.byWire?_of_mem`: every field of a distinct shape
  is found under its own keys.
* `ExtensionShape.Avoids`, `ExtensionShape.checkAgainst_eq_ok_iff`: a shape that is checked shadows
  no fixed field.
-/

namespace Rim

namespace ExtensionField

theorem clash?_eq_none {a b : ExtensionField} :
    a.clash? b = none ↔
      a.key ≠ b.key ∧ a.wire.slot ≠ b.wire.slot ∧ a.wire.name ≠ b.wire.name := by
  unfold clash?
  split
  next h => simp [h]
  next h =>
    split
    next hs => simp [hs]
    next hs =>
      split
      next hn => simp [hn]
      next hn => simp [h, hs, hn]

end ExtensionField

namespace ExtensionShape

theorem same_self (s : ExtensionShape) : s.same s = true := by
  have hzip : s.fields.zip s.fields = s.fields.map fun x => (x, x) := by
    simpa using List.zip_map' (l := s.fields) (f := id) (g := id)
  simp [same, hzip, ExtensionField.same]

/-- No two fields share a key, a slot or a name. -/
structure Distinct (s : ExtensionShape) : Prop where
  keys : (s.fields.map (·.key)).Nodup
  slots : (s.fields.map (·.wire.slot)).Nodup
  names : (s.fields.map (·.wire.name)).Nodup

theorem distinct_empty : empty.Distinct := ⟨List.nodup_nil, List.nodup_nil, List.nodup_nil⟩

/-! ## Building shapes -/

/-- A push appends a field that clashes with none of the fields before it. -/
theorem push_cases {s t : ExtensionShape} {x : ExtensionField} (h : s.push x = .ok t) :
    (∀ y ∈ s.fields, y.clash? x = none) ∧ t = ⟨s.fields ++ [x]⟩ := by
  unfold push at h
  split at h
  · cases h
  next hnone => exact ⟨List.findSome?_eq_none_iff.1 hnone, (Except.ok.inj h).symm⟩

theorem Distinct.push {s t : ExtensionShape} {x : ExtensionField} (hs : s.Distinct)
    (h : s.push x = .ok t) : t.Distinct := by
  obtain ⟨hclash, rfl⟩ := push_cases h
  have hne := fun y hy => ExtensionField.clash?_eq_none.1 (hclash y hy)
  refine ⟨nodup_map_append_singleton hs.keys ?_, nodup_map_append_singleton hs.slots ?_,
    nodup_map_append_singleton hs.names ?_⟩
  · exact fun y hy => (hne y hy).1
  · exact fun y hy => (hne y hy).2.1
  · exact fun y hy => (hne y hy).2.2

theorem Distinct.foldlM_push {s t : ExtensionShape} (hs : s.Distinct)
    {fields : List ExtensionField} (h : fields.foldlM ExtensionShape.push s = .ok t) :
    t.Distinct := by
  induction fields generalizing s with
  | nil =>
    obtain rfl : s = t := by simpa [pure, Except.pure] using h
    exact hs
  | cons x rest ih =>
    rw [List.foldlM_cons] at h
    cases hpush : s.push x with
    | error e => simp [hpush, bind, Except.bind] at h
    | ok u =>
      rw [hpush] at h
      exact ih (hs.push hpush) h

/-- Shapes built field by field are distinct. -/
theorem distinct_ofFields {fields : List ExtensionField} {s : ExtensionShape}
    (h : ofFields fields = .ok s) : s.Distinct :=
  distinct_empty.foldlM_push h

/-! ## Look-up -/

theorem mem_of_byKey? {s : ExtensionShape} {key : String} {x : ExtensionField}
    (h : s.byKey? key = some x) : x ∈ s.fields ∧ x.key = key :=
  ⟨List.mem_of_find?_eq_some h, by simpa using List.find?_some h⟩

theorem mem_of_byWire? {s : ExtensionShape} {f : Form} {key : f.Key} {x : ExtensionField}
    (h : s.byWire? f key = some x) : x ∈ s.fields ∧ f.keyOf x.wire = key :=
  ⟨List.mem_of_find?_eq_some h, by simpa using List.find?_some h⟩

/-- A field is found under its program key. -/
theorem Distinct.byKey?_of_mem {s : ExtensionShape} (hs : s.Distinct) {x : ExtensionField}
    (hx : x ∈ s.fields) : s.byKey? x.key = some x :=
  find?_of_nodup_map hs.keys hx

/-- No two fields have one key of a form. -/
theorem Distinct.nodup_keyOf {s : ExtensionShape} (hs : s.Distinct) (f : Form) :
    (s.fields.map fun x => f.keyOf x.wire).Nodup := by
  cases f with
  | binary => exact hs.slots
  | text => exact hs.names

/-- A field is found under its key of a form. -/
theorem Distinct.byWire?_of_mem {s : ExtensionShape} (hs : s.Distinct) (f : Form)
    {x : ExtensionField} (hx : x ∈ s.fields) : s.byWire? f (f.keyOf x.wire) = some x := by
  show s.fields.find? (fun y => f.keyOf y.wire = f.keyOf x.wire) = some x
  exact find?_of_nodup_map (hs.nodup_keyOf f) hx

/-! ## Fixed fields -/

/-- No field of the shape has a slot or a name of a fixed field. -/
def Avoids (s : ExtensionShape) (fixed : List FieldKey) : Prop :=
  ∀ x ∈ s.fields, ∀ k ∈ fixed, k.slot ≠ x.wire.slot ∧ k.name ≠ x.wire.name

/-- The shapes that pass the check of a point are those that avoid its fixed fields. -/
theorem checkAgainst_eq_ok_iff {s : ExtensionShape} {point : ExtensionPoint} :
    s.checkAgainst point = .ok () ↔ s.Avoids point.fixed := by
  unfold checkAgainst
  extract_lets shadows
  have hfree : ∀ x, shadows x = false ↔
      ∀ k ∈ point.fixed, k.slot ≠ x.wire.slot ∧ k.name ≠ x.wire.name := by
    intro x
    simp [shadows]
  split
  next x hx =>
    refine iff_of_false nofun fun havoids => ?_
    have hshadows := List.find?_some hx
    rw [(hfree x).2 (havoids x (List.mem_of_find?_eq_some hx))] at hshadows
    cases hshadows
  next hnone =>
    refine iff_of_true rfl fun x hx => (hfree x).1 ?_
    simpa using List.find?_eq_none.1 hnone x hx

end ExtensionShape

end Rim
