import Rim.Proofs.Extension.Set
import Rim.Proofs.Schema.Invariant

/-!
# Extension sets in use

* `ExtensionM.store`: setting a key in place; `ExtensionM.run_store`: what it leaves.
* `ExtensionSet.Change`, `ExtensionSet.changes`: the changes of a set, and what a run of them makes
  of it.
* `ExtensionSet.Built.changes`: what a run makes is built by the operations.
* `Record.exists_changes_of_decodeEntries`: what the reader of records makes of a set, a run does.
* `ExtensionSet.ordered_perm`: the shape of a set leads to each of its entries once.
* `ExtensionSet.Rebound`: what is left of a set when a shape takes the place of its own.
* `ExtensionSet.Accounted`, `ExtensionSet.Settable`, `ExtensionSet.Rebindable`: what is known of the
  entries of a set, of setting its keys and of giving it a shape.
* `extension_sets_accounted`: it is known of every set after any run.
-/

namespace Rim

/-- The shapes that can be declared. -/
def ExtensionShape.Built (shape : ExtensionShape) : Prop :=
  ∃ fields, ExtensionShape.ofFields fields = .ok shape

/-! ## Setting in place -/

/-- A program over a stored set. What it has stored before an error stays stored. -/
abbrev ExtensionM := ExceptT ExtensionError (StateM ExtensionSet)

namespace ExtensionM

/-- The outcome of a program, and the set that it leaves. -/
def run {α : Type} (x : ExtensionM α) (set : ExtensionSet) :
    Except ExtensionError α × ExtensionSet :=
  StateT.run (ExceptT.run x) set

/-- Stores a value under a key of a shape. -/
def storeIn (shape : ExtensionShape) (key : String) (value : ExtensionValue) : ExtensionM Unit := do
  match shape.byKey? key with
  | none => throw (.unknownKey key)
  | some x =>
    if x.type.same value.type = false then
      throw (.typeMismatch key x.type.name value.type.name)
    modify (·.setDecoded key value)

/-- Sets a declared key to a value of its type. -/
def store (key : String) (value : ExtensionValue) : ExtensionM Unit := do
  match (← get).shape with
  | none => throw (.noShape key)
  | some shape => storeIn shape key value

/-- A key is set in place to the same end. If that fails, the set is left as it was. -/
theorem run_store (key : String) (value : ExtensionValue) (set : ExtensionSet) :
    run (store key value) set =
      match set.set key value with
      | .ok next => (.ok (), next)
      | .error e => (.error e, set) := by
  obtain ⟨shape, entries, hsorted⟩ := set
  cases shape with
  | none => rfl
  | some shape =>
    show run (storeIn shape key value) ⟨some shape, entries, hsorted⟩ = _
    rw [storeIn, ExtensionSet.set]
    dsimp only
    cases shape.byKey? key with
    | none => rfl
    | some x =>
      dsimp only
      cases x.type.same value.type <;> rfl

end ExtensionM

namespace ExtensionSet

/-! ## Changes -/

/-- A copy of a set. The entries are put into a new table. -/
def clone (set : ExtensionSet) : ExtensionSet :=
  set.entries.foldl (fun copy e => copy.put e.1 e.2) { empty with shape := set.shape }

theorem shape_foldl_put (entries : Keyed ExtensionValue) (set : ExtensionSet) :
    (entries.foldl (fun copy e => copy.put e.1 e.2) set).shape = set.shape := by
  induction entries generalizing set with
  | nil => rfl
  | cons e rest ih => exact ih (set.put e.1 e.2)

theorem entries_foldl_put (entries : Keyed ExtensionValue) (set : ExtensionSet) :
    (entries.foldl (fun copy e => copy.put e.1 e.2) set).entries =
      entries.foldl (fun table e => table.insert e.1 e.2) set.entries := by
  induction entries generalizing set with
  | nil => rfl
  | cons e rest ih => exact ih (set.put e.1 e.2)

theorem clone_eq (set : ExtensionSet) : set.clone = set := by
  have hsorted : Keyed.Sorted ([] ++ set.entries) := set.sorted
  ext1
  · exact shape_foldl_put set.entries _
  · rw [clone, entries_foldl_put]
    exact Keyed.foldl_insert_of_sorted hsorted

/-- The set after the value of a key of a form has been read, as far as the shape declares the key
and the value can be read. -/
def read (set : ExtensionSet) (f : Form) (key : f.Key) (v : f.Value) : ExtensionSet :=
  match set.shape.bind (·.byWire? f key) with
  | none => set
  | some x => match x.decode f v with
    | .error _ => set
    | .ok value => set.setDecoded x.key value

/-- A change of a set. -/
inductive Change where
  | bind (shape : ExtensionShape)
  /-- Gives the set the very shape that it has. -/
  | rebind
  | set (key : String) (value : ExtensionValue)
  | delete (key : String)
  /-- Goes on with a copy. -/
  | clone
  | read (f : Form) (key : f.Key) (v : f.Value)

/-- The set after a change. -/
def change (set : ExtensionSet) : Change → ExtensionSet
  | .bind shape => set.bind shape
  | .rebind => set
  | .set key value => (ExtensionM.run (.store key value) set).2
  | .delete key => set.delete key
  | .clone => set.clone
  | .read f key v => set.read f key v

/-- The set after changes made in turn. -/
def changes (set : ExtensionSet) (cs : List Change) : ExtensionSet := cs.foldl change set

/-- A change makes a built set of a built one. -/
theorem Built.change {set : ExtensionSet} (h : set.Built) {c : Change}
    (hshape : ∀ shape, c = .bind shape → shape.Built) : (set.change c).Built := by
  cases c with
  | bind shape =>
    obtain ⟨fields, hfields⟩ := hshape shape rfl
    exact h.bind hfields
  | rebind => exact h
  | set key value =>
    show (ExtensionM.run (.store key value) set).2.Built
    rw [ExtensionM.run_store]
    cases hset : set.set key value with
    | error e => exact h
    | ok next => exact h.set hset
  | delete key => exact h.delete key
  | clone =>
    show set.clone.Built
    rwa [clone_eq]
  | read f key v =>
    show (set.read f key v).Built
    unfold ExtensionSet.read
    split
    · exact h
    next x hx =>
      obtain ⟨shape, hshape, hwire⟩ := Option.bind_eq_some_iff.1 hx
      split
      · exact h
      next value hvalue =>
        exact h.setDecoded hshape (ExtensionShape.mem_of_byWire? hwire).1 hvalue

/-- A run of changes makes a built set of a built one. -/
theorem Built.changes {set : ExtensionSet} (h : set.Built) {cs : List Change}
    (hshapes : ∀ shape, Change.bind shape ∈ cs → shape.Built) : (set.changes cs).Built := by
  induction cs generalizing set with
  | nil => exact h
  | cons c rest ih =>
    refine ih (h.change ?_) fun shape hmem => hshapes shape (List.mem_cons_of_mem _ hmem)
    rintro shape rfl
    exact hshapes shape (by simp)

theorem changes_append (set : ExtensionSet) (cs more : List Change) :
    set.changes (cs ++ more) = (set.changes cs).changes more := List.foldl_append

end ExtensionSet

/-- The own set of a record that has been read is what a run of reads makes of the empty set with
the shape in force for its kind. Fixed fields are not read into it. -/
theorem Record.exists_changes_of_decodeEntries {R : Type} [Record R] [LawfulRecord R] {f : Form}
    {sc : Scope} {h : ExtensionHost R} (hhost : host (R := R) = some h)
    {entries : List (f.RawKey × f.Value)} {n : Nat} {y : R}
    (hread : decodeEntries f sc [] entries (bindOwn sc.bindings empty) = ⟨n, .ok y⟩) :
    ∃ cs : List ExtensionSet.Change,
      (∀ c ∈ cs, ∃ key v, field? R f key = none ∧ c = .read f key v) ∧
      h.get y = (ExtensionSet.empty.bindOptional (shape? R sc.bindings)).changes cs := by
  have hlawful := LawfulRecord.host h hhost
  have hmap : ∀ change (r : R), mapExtensions change r = h.set (change (h.get r)) r := by
    intro change r
    simp only [mapExtensions, hhost]
  -- The shape is carried along: the reader looks keys up in the shape in force, a read in that of
  -- the set.
  have hkept : KeptByEntries f sc fun _ r => (h.get r).shape = shape? R sc.bindings ∧
      ∃ cs : List ExtensionSet.Change,
        (∀ c ∈ cs, ∃ key v, field? R f key = none ∧ c = .read f key v) ∧
        h.get r = (ExtensionSet.empty.bindOptional (shape? R sc.bindings)).changes cs := by
    intro done raw v key r n y hr _ _ hstored
    cases hstored with
    | @field x b _ hx _ =>
      rw [(hlawful.apart x (List.mem_of_find?_eq_some hx)).get_set]
      exact hr
    | @extension shape z value hfree hshape hz hvalue =>
      obtain ⟨hown, cs, hcs, hget⟩ := hr
      have hstep : (h.get r).setDecoded z.key value = (h.get r).change (.read f key v) := by
        show _ = (h.get r).read f key v
        have hfound : (h.get r).shape.bind (·.byWire? f key) = some z := by
          rw [hown, hshape]
          exact hz
        simp only [ExtensionSet.read, hfound, hvalue]
      rw [hmap, hlawful.get_set]
      refine ⟨hown, cs ++ [.read f key v], fun c hc => ?_, ?_⟩
      · rcases List.mem_append.1 hc with hc | hc
        · exact hcs c hc
        · exact ⟨key, v, hfree, List.mem_singleton.1 hc⟩
      · rw [hstep, hget, ExtensionSet.changes_append]
        rfl
    | unknown => exact hr
  refine (hkept.holds hread ?_).2
  have hstart : h.get (bindOwn sc.bindings empty) =
      ExtensionSet.empty.bindOptional (shape? R sc.bindings) := by
    rw [bindOwn, hmap, hlawful.get_set, hlawful.get_empty]
  rw [hstart]
  refine ⟨?_, [], fun c hc => absurd hc List.not_mem_nil, rfl⟩
  cases shape? R sc.bindings <;> rfl

namespace ExtensionSet

/-! ## Writing what is held -/

/-- The entries in the order of the shape. -/
def ordered (set : ExtensionSet) : List (String × ExtensionValue) :=
  match set.shape with
  | none => []
  | some shape => shape.fields.filterMap fun x =>
    (set.entries.find? x.key).map fun value => (x.key, value)

/-- What is written for an entry: its value, under the key of the field that declares it. -/
def Writes (set : ExtensionSet) (f : Form) (e : String × ExtensionValue)
    (out : FieldKey × f.Value) : Prop :=
  ∃ shape x, set.shape = some shape ∧ shape.byKey? e.1 = some x ∧ out.1 = x.wire ∧
    e.2.encode f = .ok out.2

theorem WellFormed.mem_ordered {set : ExtensionSet} (h : set.WellFormed)
    {e : String × ExtensionValue} : e ∈ set.ordered ↔ e ∈ set.entries := by
  unfold ordered
  constructor
  · intro he
    split at he
    · cases he
    · obtain ⟨x, -, hx⟩ := List.mem_filterMap.1 he
      obtain ⟨value, hvalue, rfl⟩ := Option.map_eq_some_iff.1 hx
      exact Keyed.mem_of_find? hvalue
  · intro he
    obtain ⟨shape, x, hshape, hx, -⟩ := h.declared e he
    obtain ⟨hmem, hkey⟩ := ExtensionShape.mem_of_byKey? hx
    rw [hshape]
    refine List.mem_filterMap.2 ⟨x, hmem, ?_⟩
    rw [hkey, Keyed.find?_of_mem set.sorted he]
    rfl

/-- The keys met in the order of some fields are keys of these fields, in their order. -/
theorem sublist_keys_filterMap (entries : Keyed ExtensionValue) (xs : List ExtensionField) :
    ((xs.filterMap fun x => (entries.find? x.key).map fun value => (x.key, value)).map
      (·.1)).Sublist (xs.map (·.key)) := by
  induction xs with
  | nil => exact .slnil
  | cons x rest ih =>
    cases hx : entries.find? x.key with
    | none => simpa [hx] using ih.cons x.key
    | some value => simpa [hx] using ih

theorem WellFormed.nodup_ordered {set : ExtensionSet} (h : set.WellFormed) :
    set.ordered.Nodup := by
  unfold ordered
  split
  · exact List.nodup_nil
  next shape hshape =>
    refine List.Nodup.of_map (·.1) ?_
    exact (h.distinct shape hshape).keys.sublist (sublist_keys_filterMap _ _)

/-- The shape of a set leads to each of its entries once. -/
theorem WellFormed.ordered_perm {set : ExtensionSet} (h : set.WellFormed) :
    set.ordered.Perm set.entries := by
  refine (List.perm_ext_iff_of_nodup h.nodup_ordered (List.Nodup.of_map _ set.nodup_keys)).2 ?_
  exact fun _ => h.mem_ordered

/-- What is written of some fields is written for the entries that they lead to. -/
theorem forall₂_writes {set : ExtensionSet} {shape : ExtensionShape}
    (hshape : set.shape = some shape) {f : Form} {xs : List ExtensionField}
    {results : List (Option (FieldKey × f.Value))}
    (h : List.Forall₂ (fun x o => set.encodeField f x = .ok o) xs results)
    (hfound : ∀ x ∈ xs, shape.byKey? x.key = some x) :
    List.Forall₂ (set.Writes f)
      (xs.filterMap fun x => (set.entries.find? x.key).map fun value => (x.key, value))
      (results.filterMap id) := by
  induction h with
  | nil => exact .nil
  | @cons x o xs results hx _ ih =>
    have ih := ih fun y hy => hfound y (List.mem_cons_of_mem _ hy)
    rcases encodeField_cases hx with ⟨hnone, rfl⟩ | ⟨value, v, hvalue, hv, rfl⟩
    · simpa [hnone] using ih
    · have hhead : set.Writes f (x.key, value) (x.wire, v) :=
        ⟨shape, x, hshape, hfound x (by simp), rfl, hv⟩
      simpa [hvalue] using And.intro hhead ih

/-- What is written of a set is written for its entries, one after the other. -/
theorem WellFormed.forall₂_ordered {set : ExtensionSet} (h : set.WellFormed) {f : Form}
    {out : List (FieldKey × f.Value)} (hout : set.encode f = .ok out) :
    List.Forall₂ (set.Writes f) set.ordered out := by
  unfold ordered
  split
  next hshape =>
    rw [encode, hshape] at hout
    rw [← Except.ok.inj hout]
    exact .nil
  next shape hshape =>
    obtain ⟨results, hresults, rfl⟩ := encode_cases hshape hout
    exact forall₂_writes hshape hresults fun x hx => (h.distinct shape hshape).byKey?_of_mem hx

/-- Every entry is written under a key of its own. -/
theorem WellFormed.nodup_keyOf_encode {set : ExtensionSet} (h : set.WellFormed) {f : Form}
    {out : List (FieldKey × f.Value)} (hout : set.encode f = .ok out) :
    (out.map fun o => f.keyOf o.1).Nodup := by
  have hkeys := congrArg (List.map f.keyOf) (map_fst_encode hout)
  rw [List.map_map, List.map_map] at hkeys
  show (out.map (f.keyOf ∘ (·.1))).Nodup
  rw [hkeys]
  exact nodup_held h.distinct f

/-- A set is written exactly if all its values are. -/
theorem WellFormed.exists_encode_iff {set : ExtensionSet} (h : set.WellFormed) (f : Form) :
    (∃ out, set.encode f = .ok out) ↔ ∀ e ∈ set.entries, ∃ v, e.2.encode f = .ok v := by
  constructor
  · rintro ⟨out, hout⟩ e he
    obtain ⟨o, -, -, -, -, -, -, hv⟩ :=
      exists_mem_right_of_forall₂ (h.forall₂_ordered hout) e (h.mem_ordered.2 he)
    exact ⟨o.2, hv⟩
  · exact exists_encode_of_values

/-! ## Setting and binding -/

theorem get_eq_ok_iff {set : ExtensionSet} {key : String} {value : ExtensionValue} :
    set.get key = .ok value ↔ set.entries.find? key = some value := by
  unfold get
  split <;> simp_all

/-- A value is there for every type that is the value's own. -/
theorem getAs_of_get {set : ExtensionSet} {key : String} {value : ExtensionValue}
    {type : ExtensionType} (h : set.get key = .ok value) (htype : value.type.same type = true) :
    set.getAs key type = .ok value :=
  Except.bind_eq_ok_iff.2 ⟨value, h, by rw [if_pos htype]; rfl⟩

/-- Binding keeps an entry exactly if both shapes declare its key with one type. -/
theorem WellFormed.get_bind_iff {set : ExtensionSet} (h : set.WellFormed) {shape : ExtensionShape}
    {key : String} {value : ExtensionValue} :
    (set.bind shape).get key = .ok value ↔ set.get key = .ok value ∧
      ∃ old x y, set.shape = some old ∧ old.byKey? key = some x ∧ shape.byKey? key = some y ∧
        x.type.same y.type = true := by
  rw [get_eq_ok_iff, get_eq_ok_iff]
  cases hshape : set.shape with
  | none =>
    simp [ExtensionSet.bind, hshape, h.entries_eq_nil hshape]
  | some old =>
    have hbind : (set.bind shape).entries = set.entries.filter fun e => survives old shape e.1 := by
      simp only [ExtensionSet.bind, hshape]
    rw [hbind, Keyed.find?_eq_some_iff (Keyed.sorted_filter set.sorted _), List.mem_filter,
      Keyed.find?_eq_some_iff set.sorted, survives_eq_true_iff]
    simp

/-- Binding the shape that a set has changes nothing, if it declares all entries. -/
theorem bind_eq_self {set : ExtensionSet} (hdeclared : ∀ e ∈ set.entries, set.Declares e.1 e.2)
    {shape : ExtensionShape} (hshape : set.shape = some shape) : set.bind shape = set := by
  refine (bind_eq_self_iff hshape).2 fun e he => ?_
  obtain ⟨shape', x, hshape', hx, -⟩ := hdeclared e he
  obtain rfl : shape = shape' := Option.some.inj (hshape.symm.trans hshape')
  exact survives_eq_true_iff.2 ⟨x, x, hx, hx, ExtensionType.same_self _⟩

/-! ## What is known after any run -/

/-- No entry of a set is stray, and none is lost when the set is written. -/
structure Accounted (set : ExtensionSet) : Prop where
  /-- Each entry is declared by the shape, with the type of its value. -/
  declared : ∀ e ∈ set.entries, set.Declares e.1 e.2
  unbound : set.shape = none → set.entries = []
  keysOnce : (set.entries.map (·.1)).Nodup
  /-- The shape leads to each entry once. -/
  ordered : set.ordered.Perm set.entries
  /-- A form takes the set exactly if it takes all its values. -/
  encodes : ∀ f, (∃ out, set.encode f = .ok out) ↔ ∀ e ∈ set.entries, ∃ v, e.2.encode f = .ok v
  /-- What is written are the entries in that order, each under the key of its field. -/
  written : ∀ f out, set.encode f = .ok out → List.Forall₂ (set.Writes f) set.ordered out
  /-- No two are written under one key. -/
  apart : ∀ f out, set.encode f = .ok out → (out.map fun o => f.keyOf o.1).Nodup

/-- What setting a key does. -/
structure Settable (set : ExtensionSet) : Prop where
  accepts : ∀ key value, (∃ next, set.set key value = .ok next) ↔ set.Declares key value
  /-- A key that cannot be set leaves the set as it was. -/
  failed : ∀ key value e, set.set key value = .error e →
    ExtensionM.run (.store key value) set = (.error e, set)
  /-- A key that is set holds the value. The shape and all other keys are as they were. -/
  stored : ∀ key value next, set.set key value = .ok next →
    ExtensionM.run (.store key value) set = (.ok (), next) ∧ next.shape = set.shape ∧
      (∀ type, value.type.same type = true → next.getAs key type = .ok value) ∧
      ∀ other, other ≠ key → next.get other = set.get other

/-- What a set is once a shape has taken the place of its own. -/
structure Rebound (set : ExtensionSet) (shape : ExtensionShape) (next : ExtensionSet) : Prop where
  shape_eq : next.shape = some shape
  /-- An entry stays with its value exactly if both shapes declare its key with one type. -/
  kept : ∀ key value, next.get key = .ok value ↔
    set.get key = .ok value ∧ ∃ old x y, set.shape = some old ∧ old.byKey? key = some x ∧
      shape.byKey? key = some y ∧ x.type.same y.type = true

/-- What binding a shape does. -/
structure Rebindable (set : ExtensionSet) : Prop where
  bound : ∀ shape, set.Rebound shape (set.bind shape)
  /-- The shape that the set has is bound again without any change. -/
  again : ∀ shape, set.shape = some shape → set.bind shape = set
  twice : ∀ shape, (set.bind shape).bind shape = set.bind shape

theorem WellFormed.accounted {set : ExtensionSet} (h : set.WellFormed) : set.Accounted where
  declared := h.declared
  unbound := h.entries_eq_nil
  keysOnce := set.nodup_keys
  ordered := h.ordered_perm
  encodes := h.exists_encode_iff
  written _ _ hout := h.forall₂_ordered hout
  apart _ _ hout := h.nodup_keyOf_encode hout

theorem settable (set : ExtensionSet) : set.Settable where
  accepts _ _ := exists_set_iff
  failed key value e h := by rw [ExtensionM.run_store, h]
  stored key value next h := by
    obtain ⟨-, rfl⟩ := declares_of_set h
    refine ⟨by rw [ExtensionM.run_store, h], rfl, fun type htype => ?_, fun other hne => ?_⟩
    · exact getAs_of_get (get_eq_ok_iff.2 (Keyed.find?_insert_self key value _)) htype
    · simp only [get, put, Keyed.find?_insert_of_ne hne]

theorem WellFormed.rebound {set : ExtensionSet} (h : set.WellFormed) (shape : ExtensionShape) :
    set.Rebound shape (set.bind shape) where
  shape_eq := set.shape_bind shape
  kept _ _ := h.get_bind_iff

theorem WellFormed.rebindable {set : ExtensionSet} (h : set.WellFormed) : set.Rebindable where
  bound := h.rebound
  again _ hshape := bind_eq_self h.declared hshape
  twice shape := bind_eq_self (fun _ he => h.declares_of_mem_bind he) (set.shape_bind shape)

end ExtensionSet

/-- Take an empty set, unbound or bound, and any changes of it, whether they succeed or not. Each
entry is then declared with the type of its value and is written once; a key is set exactly if it is
declared so, which changes no other key, and a failure changes nothing; and binding a shape keeps
exactly the entries that the old and the new shape declare with one type. -/
theorem extension_sets_accounted {start : ExtensionSet}
    (hstart : start = .empty ∨ ∃ shape : ExtensionShape, shape.Built ∧ start = .bound shape)
    {cs : List ExtensionSet.Change}
    (hshapes : ∀ shape, ExtensionSet.Change.bind shape ∈ cs → shape.Built) :
    (start.changes cs).Accounted ∧ (start.changes cs).Settable ∧ (start.changes cs).Rebindable := by
  have hbuilt : start.Built := by
    rcases hstart with rfl | ⟨shape, ⟨fields, hfields⟩, rfl⟩
    · exact .empty
    · exact ExtensionSet.Built.empty.bind hfields
  have hwell := (hbuilt.changes hshapes).wellFormed
  exact ⟨hwell.accounted, ExtensionSet.settable _, hwell.rebindable⟩

/-- A note and its level. -/
def noteFields : List ExtensionField :=
  [.plain "note" (-1) .string, .plain "level" (-2) .uint]

/-- The level as a text. -/
def spokenFields : List ExtensionField :=
  [.plain "level" (-2) .string, .plain "note" (-3) .string]

/-- A note is set, an undeclared key is tried, a level is read, and the set is copied. -/
def noteChanges : List ExtensionSet.Change :=
  [.bind ⟨noteFields⟩, .set "note" (.string "wet"), .set "mood" (.bool true), .rebind,
    .read .text "level" (.number (.natural 3)), .clone]

theorem built_of_mem_noteChanges :
    ∀ shape, ExtensionSet.Change.bind shape ∈ noteChanges → shape.Built := by
  intro shape h
  simp only [noteChanges, List.mem_cons, List.not_mem_nil, or_false,
    ExtensionSet.Change.bind.injEq, reduceCtorEq] at h
  subst h
  exact ⟨noteFields, rfl⟩

/-- The note and the level are written in both forms. A shape with another type for the level takes
over the note alone. -/
theorem extension_sets_accounted_notes :
    let set := ExtensionSet.empty.changes noteChanges
    (∀ f, ∃ out, set.encode f = .ok out ∧ out.length = 2) ∧
      ExtensionM.run (.store "mood" (.bool true)) set = (.error (.unknownKey "mood"), set) ∧
      (set.bind ⟨spokenFields⟩).get "note" = .ok (.string "wet") ∧
      ∀ value, (set.bind ⟨spokenFields⟩).get "level" ≠ .ok value := by
  intro set
  obtain ⟨haccounted, hsettable, hrebindable⟩ :=
    extension_sets_accounted (.inl rfl) built_of_mem_noteChanges
  have hentries : set.entries = [("level", .uint 3), ("note", .string "wet")] := rfl
  refine ⟨fun f => ?_, hsettable.failed _ _ _ rfl, ((hrebindable.bound _).kept _ _).2 ⟨rfl, ?_⟩, ?_⟩
  · have hvalues : ∀ e ∈ set.entries, ∃ v, e.2.encode f = .ok v := by
      intro e he
      have hlib : e.2.IsLibrary := by
        rw [hentries] at he
        rcases List.mem_pair.1 he with rfl | rfl
        · exact trivial
        · exact trivial
      exact ExtensionValue.exists_encode hlib f
    obtain ⟨out, hout⟩ := (haccounted.encodes f).2 hvalues
    refine ⟨out, hout, ?_⟩
    rw [← (haccounted.written f out hout).length_eq, haccounted.ordered.length_eq, hentries]
    rfl
  · exact ⟨⟨noteFields⟩, _, _, rfl, rfl, rfl, rfl⟩
  · intro value hvalue
    obtain ⟨-, old, x, y, hold, hx, hy, htype⟩ := ((hrebindable.bound _).kept _ _).1 hvalue
    cases hold
    cases hx
    cases hy
    cases htype

end Rim
