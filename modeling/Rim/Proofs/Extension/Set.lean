import Rim.Proofs.Extension.Shape
import Rim.Proofs.Wire.Coding
import Rim.Extension.Set

/-!
# Extension sets

* `ExtensionValue.decode_encode`: a value of a library type is read back as itself.
* `ExtensionSet.Built`: the sets that the operations make.
* `ExtensionSet.Built.wellFormed`: each of their entries is declared by the shape of the set with
  the type of its value.
* `ExtensionSet.exists_encode_of_values`, `ExtensionSet.exists_encode`: a set is written if its
  values are, as those of library types are in both forms.
* `ExtensionSet.encode_held`: a set is written as its entries in the order of its shape.
* `ExtensionSet.WellFormed.collect_held`: going through the fields whose keys are set meets every
  entry.
* `ExtensionSet.Portable`, `ExtensionSet.Clear`: what a set has to be like to be carried through a
  form, and which keys its entries leave to the fixed fields.
-/

namespace Rim

/-! ## Values -/

namespace ExtensionType

/-- Types are one if they are equal, or come from elsewhere under one name. -/
theorem same_cases {a b : ExtensionType} (h : a.same b = true) :
    a = b ∨ ∃ s t : CustomType, a = .custom s ∧ b = .custom t ∧ s.name = t.name := by
  cases a <;> cases b <;> simp_all [same]

theorem same_trans_left {a b c : ExtensionType} (hab : a.same b = true) (hac : a.same c = true) :
    b.same c = true := by
  rcases same_cases hab with rfl | ⟨s, t, rfl, rfl, hname⟩
  · exact hac
  · rcases same_cases hac with rfl | ⟨s', u, hs, rfl, hname'⟩
    · simp [same, hname]
    · cases hs
      simp [same, ← hname, hname']

/-- What a type decodes is a value of the type. -/
theorem type_of_decode {t : ExtensionType} {f : Form} {v : f.Value} {value : ExtensionValue}
    (h : t.decode f v = .ok value) : value.type = t := by
  cases t with
  | custom type =>
    cases f
    all_goals
      obtain ⟨_, -, hvalue⟩ := Except.bind_eq_ok_iff.1 h
      obtain rfl := Except.pure_eq_ok_iff.1 hvalue
      rfl
  | _ =>
    obtain ⟨_, -, hvalue⟩ := Except.bind_eq_ok_iff.1 h
    obtain rfl := Except.pure_eq_ok_iff.1 hvalue
    rfl

end ExtensionType

namespace ExtensionValue

/-- A value of a type of this library. -/
def IsLibrary : ExtensionValue → Prop
  | .custom _ _ => False
  | _ => True

/-- A value of a library type is read back as itself. -/
theorem decode_encode {value : ExtensionValue} (hlib : value.IsLibrary) {f : Form} {v : f.Value}
    (h : value.encode f = .ok v) : value.type.decode f v = .ok value := by
  cases value with
  | uint n => exact Except.bind_eq_ok_iff.2 ⟨n, Coding.inverse_uint f n v h, rfl⟩
  | int n => exact Except.bind_eq_ok_iff.2 ⟨n, Coding.inverse_int f n v h, rfl⟩
  | bool b => exact Except.bind_eq_ok_iff.2 ⟨b, Coding.inverse_bool f b v h, rfl⟩
  | string s => exact Except.bind_eq_ok_iff.2 ⟨s, Coding.inverse_text f s v h, rfl⟩
  | bytes bs => exact Except.bind_eq_ok_iff.2 ⟨bs, Coding.inverse_bytes f bs v h, rfl⟩
  | digests ds => exact Except.bind_eq_ok_iff.2 ⟨ds, Digests.inverse_coding f ds v h, rfl⟩
  | custom type content => exact hlib.elim

/-- A value of a library type is written in both forms. -/
theorem exists_encode {value : ExtensionValue} (h : value.IsLibrary) (f : Form) :
    ∃ v, value.encode f = .ok v := by
  cases value with
  | uint n => exact Coding.total_uint f n
  | int n => exact Coding.total_int f n
  | bool b => exact Coding.total_bool f b
  | string s => exact Coding.total_text f s
  | bytes bs => exact Coding.total_bytes f bs
  | digests ds => exact Digests.total_coding f ds
  | custom type content => exact h.elim

theorem type_eq_of_same {t : ExtensionType} {value : ExtensionValue} (hlib : value.IsLibrary)
    (h : t.same value.type = true) : t = value.type := by
  rcases ExtensionType.same_cases h with h | ⟨s, u, -, hu, -⟩
  · exact h
  · cases value with
    | custom type content => exact hlib.elim
    | _ => cases hu

theorem agreesItems_pairs (ds : List Digest) :
    Cbor.agreesItems (ds.map fun d => .array [.uint d.algorithm.number, .bytes d.value])
      (ds.map fun d => .array [.uint d.algorithm.number, .bytes d.value]) = true := by
  induction ds with
  | nil => rfl
  | cons d rest ih => simp [Cbor.agreesItems, Cbor.agrees, ih]

theorem encode_digests (ds : Digests) :
    (digests ds).encode .binary = .ok (.array (ds.entries.map fun d =>
      .array [.uint d.algorithm.number, .bytes d.value])) := by
  have hitems : ds.entries.mapM (Digest.coding.encode .binary) =
      .ok (ds.entries.map fun d => .array [.uint d.algorithm.number, .bytes d.value]) := by
    rw [Except.mapM_eq_ok_iff, List.forall₂_map_right_iff]
    exact List.forall₂_same.2 fun d _ => rfl
  exact Except.bind_eq_ok_iff.2 ⟨_, hitems, rfl⟩

/-- A value of a library type is the same data as itself. -/
theorem same_self {value : ExtensionValue} (hlib : value.IsLibrary) :
    value.same value = true := by
  have hbinary : ∃ p, value.encode .binary = .ok p ∧ p.agrees p = true := by
    cases value with
    | uint n => exact ⟨_, rfl, by simp [Cbor.agrees]⟩
    | int n =>
      refine ⟨_, rfl, ?_⟩
      unfold Cbor.ofInt64
      split <;> simp [Cbor.agrees]
    | bool b => exact ⟨_, rfl, by simp [Cbor.agrees]⟩
    | string s => exact ⟨_, rfl, by simp [Cbor.agrees]⟩
    | bytes bs => exact ⟨_, rfl, by simp [Cbor.agrees]⟩
    | digests ds => exact ⟨_, encode_digests ds, by simp [Cbor.agrees, agreesItems_pairs]⟩
    | custom type content => exact hlib.elim
  obtain ⟨p, hp, hagrees⟩ := hbinary
  simp [same, hp, hagrees]

end ExtensionValue

namespace ExtensionSet

/-- Values under different keys may be put in either order. -/
theorem put_comm {key other : String} (h : key ≠ other) (value w : ExtensionValue)
    (set : ExtensionSet) :
    (set.put other w).put key value = (set.put key value).put other w := by
  ext1
  · rfl
  · exact Keyed.insert_comm h value w set.entries

/-- Each entry comes under one key. -/
theorem nodup_keys (set : ExtensionSet) : (set.entries.map (·.1)).Nodup :=
  set.sorted.imp fun hlt => hlt.ne

/-! ## Sets that are built -/

/-- The sets that the operations make. -/
inductive Built : ExtensionSet → Prop where
  | empty : Built empty
  | bind {set : ExtensionSet} {fields : List ExtensionField} {shape : ExtensionShape} :
      Built set → ExtensionShape.ofFields fields = .ok shape → Built (set.bind shape)
  | set {set next : ExtensionSet} {key : String} {value : ExtensionValue} :
      Built set → set.set key value = .ok next → Built next
  | setDecoded {set : ExtensionSet} {shape : ExtensionShape} {x : ExtensionField} {f : Form}
      {v : f.Value} {value : ExtensionValue} : Built set → set.shape = some shape →
      x ∈ shape.fields → x.decode f v = .ok value → Built (set.setDecoded x.key value)
  | delete {set : ExtensionSet} (key : String) : Built set → Built (set.delete key)

/-- A value stands under a key that the shape of the set declares with the value's type. -/
def Declares (set : ExtensionSet) (key : String) (value : ExtensionValue) : Prop :=
  ∃ shape x, set.shape = some shape ∧ shape.byKey? key = some x ∧ x.type.same value.type = true

/-- The shape is distinct, and declares every entry. -/
structure WellFormed (set : ExtensionSet) : Prop where
  distinct : ∀ shape, set.shape = some shape → shape.Distinct
  declared : ∀ e ∈ set.entries, set.Declares e.1 e.2

theorem wellFormed_empty : empty.WellFormed :=
  ⟨fun _ h => absurd h (by simp [empty]), fun _ he => absurd he List.not_mem_nil⟩

/-- An entry survives if both shapes declare its key with one type. -/
theorem survives_eq_true_iff {old new : ExtensionShape} {key : String} :
    survives old new key = true ↔ ∃ x y, old.byKey? key = some x ∧ new.byKey? key = some y ∧
      x.type.same y.type = true := by
  unfold survives
  cases old.byKey? key <;> cases new.byKey? key <;> simp

theorem shape_bind (set : ExtensionSet) (shape : ExtensionShape) :
    (set.bind shape).shape = some shape := by
  unfold ExtensionSet.bind
  split <;> rfl

/-- Binding the shape that a set has changes nothing exactly if all entries survive. -/
theorem bind_eq_self_iff {set : ExtensionSet} {shape : ExtensionShape}
    (hshape : set.shape = some shape) :
    set.bind shape = set ↔ ∀ e ∈ set.entries, survives shape shape e.1 = true := by
  have hentries : (set.bind shape).entries =
      set.entries.filter fun e => survives shape shape e.1 := by
    simp only [ExtensionSet.bind, hshape]
  rw [ExtensionSet.ext_iff, shape_bind, hentries, hshape, List.filter_eq_self]
  exact and_iff_right rfl

/-- What survives a new shape is declared by it. -/
theorem WellFormed.declares_of_mem_bind {set : ExtensionSet} (hset : set.WellFormed)
    {shape : ExtensionShape} {e : String × ExtensionValue} (he : e ∈ (set.bind shape).entries) :
    (set.bind shape).Declares e.1 e.2 := by
  unfold ExtensionSet.bind at he
  split at he
  next hnone =>
    obtain ⟨old, _, hold, -⟩ := hset.declared e he
    rw [hnone] at hold
    cases hold
  next old hold =>
    obtain ⟨hmem, hsurvives⟩ := List.mem_filter.1 he
    obtain ⟨old', x, hold', hx, hsame⟩ := hset.declared e hmem
    obtain rfl : old = old' := Option.some.inj (hold.symm.trans hold')
    obtain ⟨x', y, hx', hy, htype⟩ := survives_eq_true_iff.1 hsurvives
    obtain rfl : x = x' := Option.some.inj (hx.symm.trans hx')
    -- The entry was declared by the old shape, and the new one keeps the type.
    exact ⟨shape, y, set.shape_bind shape, hy, ExtensionType.same_trans_left htype hsame⟩

theorem WellFormed.bind {set : ExtensionSet} (hset : set.WellFormed) {shape : ExtensionShape}
    (hshape : shape.Distinct) : (set.bind shape).WellFormed := by
  refine ⟨?_, fun e he => hset.declares_of_mem_bind he⟩
  intro shape' hshape'
  obtain rfl := Option.some.inj ((set.shape_bind shape).symm.trans hshape')
  exact hshape

/-- A declared value may be put in. -/
theorem WellFormed.put {set : ExtensionSet} (hset : set.WellFormed) {key : String}
    {value : ExtensionValue} (h : set.Declares key value) : (set.put key value).WellFormed := by
  refine ⟨hset.distinct, fun e he => ?_⟩
  rcases Keyed.mem_insert he with rfl | he
  · exact h
  · exact hset.declared e he

theorem declares_of_set {set next : ExtensionSet} {key : String} {value : ExtensionValue}
    (h : set.set key value = .ok next) :
    set.Declares key value ∧ next = set.put key value := by
  unfold ExtensionSet.set at h
  split at h
  · cases h
  next shape hshape =>
    split at h
    · cases h
    next x hx =>
      split at h
      next hsame => exact ⟨⟨shape, x, hshape, hx, hsame⟩, (Except.ok.inj h).symm⟩
      next => cases h

/-- A set takes exactly the values that its shape declares. -/
theorem exists_set_iff {set : ExtensionSet} {key : String} {value : ExtensionValue} :
    (∃ next, set.set key value = .ok next) ↔ set.Declares key value := by
  constructor
  · rintro ⟨next, hnext⟩
    exact (declares_of_set hnext).1
  · rintro ⟨shape, x, hshape, hx, htype⟩
    refine ⟨set.put key value, ?_⟩
    simp only [ExtensionSet.set, hshape, hx, htype, if_true]
    rfl

theorem WellFormed.declares_of_decode {set : ExtensionSet} (hset : set.WellFormed)
    {shape : ExtensionShape} (hshape : set.shape = some shape) {x : ExtensionField}
    (hx : x ∈ shape.fields) {f : Form} {v : f.Value} {value : ExtensionValue}
    (h : x.decode f v = .ok value) : set.Declares x.key value := by
  refine ⟨shape, x, hshape, (hset.distinct shape hshape).byKey?_of_mem hx, ?_⟩
  rw [ExtensionType.type_of_decode (Except.mapError_eq_ok_iff.1 h)]
  exact ExtensionType.same_self _

/-- Every operation keeps entries declared. -/
theorem Built.wellFormed {set : ExtensionSet} (h : set.Built) : set.WellFormed := by
  induction h with
  | empty => exact wellFormed_empty
  | bind _ hfields ih => exact ih.bind (ExtensionShape.distinct_ofFields hfields)
  | set _ hset ih =>
    obtain ⟨hdeclares, rfl⟩ := declares_of_set hset
    exact ih.put hdeclares
  | setDecoded _ hshape hx hdecode ih => exact ih.put (ih.declares_of_decode hshape hx hdecode)
  | delete key _ ih =>
    refine ⟨ih.distinct, fun e he => ?_⟩
    exact ih.declared e (List.mem_filter.1 he).1

/-! ## Writing -/

theorem encodeField_cases {set : ExtensionSet} {x : ExtensionField}
    {f : Form} {o : Option (FieldKey × f.Value)} (h : set.encodeField f x = .ok o) :
    (set.entries.find? x.key = none ∧ o = none) ∨
      ∃ value v, set.entries.find? x.key = some value ∧ value.encode f = .ok v ∧
        o = some (x.wire, v) := by
  unfold encodeField at h
  split at h
  next hnone => exact Or.inl ⟨hnone, (Except.ok.inj h).symm⟩
  next value hvalue =>
    split at h
    next v hv => exact Or.inr ⟨value, v, hvalue, hv, (Except.ok.inj h).symm⟩
    next => cases h

theorem encode_cases {set : ExtensionSet} {shape : ExtensionShape} (hshape : set.shape = some shape)
    {f : Form} {entries : List (FieldKey × f.Value)} (h : set.encode f = .ok entries) :
    ∃ results, List.Forall₂ (fun x o => set.encodeField f x = .ok o) shape.fields results ∧
      entries = results.filterMap id := by
  simp only [encode, hshape] at h
  obtain ⟨results, hresults, h⟩ := Except.bind_eq_ok_iff.1 h
  exact ⟨results, Except.mapM_eq_ok_iff.1 hresults, (Except.pure_eq_ok_iff.1 h).symm⟩

/-- A set is written if its values are, whatever its shape declares. -/
theorem exists_encode_of_values {set : ExtensionSet} {f : Form}
    (h : ∀ e ∈ set.entries, ∃ v, e.2.encode f = .ok v) : ∃ entries, set.encode f = .ok entries := by
  unfold encode
  split
  · exact ⟨[], rfl⟩
  next shape _ =>
    have hfield : ∀ x ∈ shape.fields, ∃ o, set.encodeField f x = .ok o := by
      intro x _
      unfold encodeField
      split
      · exact ⟨none, rfl⟩
      next value hvalue =>
        obtain ⟨v, hv⟩ := h _ (Keyed.mem_of_find? hvalue)
        exact ⟨some (x.wire, v), by rw [hv]⟩
    obtain ⟨results, hresults⟩ := Except.exists_mapM_eq_ok_iff.2 hfield
    exact ⟨results.filterMap id, Except.bind_eq_ok_iff.2 ⟨results, hresults, rfl⟩⟩

/-- A set with values of library types is written. -/
theorem exists_encode {set : ExtensionSet} (h : ∀ e ∈ set.entries, e.2.IsLibrary)
    (f : Form) : ∃ entries, set.encode f = .ok entries :=
  exists_encode_of_values fun e he => ExtensionValue.exists_encode (h e he) f

/-- The fields whose keys are set, in the order of the shape. -/
def held (set : ExtensionSet) : List ExtensionField :=
  match set.shape with
  | some shape => shape.fields.filter fun x => set.contains x.key
  | none => []

/-- An entry on the wire holds the value under the key of a field. -/
def EntryOf (set : ExtensionSet) (f : Form) (x : ExtensionField) (e : FieldKey × f.Value) : Prop :=
  e.1 = x.wire ∧ ∃ value, set.entries.find? x.key = some value ∧ value.encode f = .ok e.2

theorem forall₂_filter {set : ExtensionSet} {f : Form} {xs : List ExtensionField}
    {results : List (Option (FieldKey × f.Value))}
    (h : List.Forall₂ (fun x o => set.encodeField f x = .ok o) xs results) :
    List.Forall₂ (set.EntryOf f) (xs.filter fun x => set.contains x.key)
      (results.filterMap id) := by
  induction h with
  | nil => exact .nil
  | @cons x o xs results hx _ ih =>
    rcases encodeField_cases hx with ⟨hnone, rfl⟩ | ⟨value, v, hvalue, hv, rfl⟩
    · have hfree : set.contains x.key = false := by simp [contains, Keyed.contains, hnone]
      rw [List.filter_cons, if_neg (by simp [hfree])]
      exact ih
    · have hset : set.contains x.key = true := by simp [contains, Keyed.contains, hvalue]
      rw [List.filter_cons, if_pos hset]
      exact .cons ⟨rfl, value, hvalue, hv⟩ ih

/-- What is written of a set are entries of the fields whose keys are set, in the order of the
shape. -/
theorem encode_held {set : ExtensionSet} {f : Form} {entries : List (FieldKey × f.Value)}
    (h : set.encode f = .ok entries) : List.Forall₂ (set.EntryOf f) set.held entries := by
  unfold held
  cases hshape : set.shape with
  | none =>
    simp only [encode, hshape] at h
    rw [← Except.ok.inj h]
    exact .nil
  | some shape =>
    obtain ⟨results, hresults, rfl⟩ := encode_cases hshape h
    exact forall₂_filter hresults

/-- What is written of a set stands under the keys of the fields whose keys are set. -/
theorem map_fst_encode {set : ExtensionSet} {f : Form} {entries : List (FieldKey × f.Value)}
    (h : set.encode f = .ok entries) : entries.map (·.1) = set.held.map (·.wire) :=
  (map_eq_map_of_forall₂ ((encode_held h).imp fun _ _ he => he.1.symm)).symm

theorem mem_held {set : ExtensionSet} {z : ExtensionField} :
    z ∈ set.held ↔
      ∃ shape, set.shape = some shape ∧ z ∈ shape.fields ∧ set.contains z.key = true := by
  unfold held
  cases set.shape <;> simp

/-- Each entry is written under a key of its own. -/
theorem nodup_held {set : ExtensionSet}
    (hdistinct : ∀ shape, set.shape = some shape → shape.Distinct) (f : Form) :
    (set.held.map fun z => f.keyOf z.wire).Nodup := by
  unfold held
  split
  next shape hshape =>
    exact ((hdistinct shape hshape).nodup_keyOf f).sublist (List.filter_sublist.map _)
  next => exact List.nodup_nil

/-- A set that holds nothing writes nothing. -/
theorem encode_of_entries_eq_nil {set : ExtensionSet} (hnil : set.entries = []) {f : Form}
    {entries : List (FieldKey × f.Value)} (h : set.encode f = .ok entries) : entries = [] := by
  refine List.eq_nil_iff_forall_not_mem.2 fun e he => ?_
  obtain ⟨x, -, -, value, hvalue, -⟩ := exists_mem_left_of_forall₂ (encode_held h) e he
  rw [hnil] at hvalue
  cases hvalue

/-! ## Going through what is held -/

/-- Puts the values that a set holds under the keys of some fields into another set, one after the
other. -/
def collect (set : ExtensionSet) : List ExtensionField → ExtensionSet → ExtensionSet
  | [], target => target
  | x :: rest, target =>
    match set.entries.find? x.key with
    | some value => collect set rest (target.put x.key value)
    | none => collect set rest target

/-- A value that is already there, or that is met on the way, is there in the end. -/
theorem find?_collect {set : ExtensionSet} {key : String} (xs : List ExtensionField)
    {target : ExtensionSet}
    (h : target.entries.find? key = set.entries.find? key ∨
      target.entries.find? key = none ∧ ∃ x ∈ xs, x.key = key) :
    (set.collect xs target).entries.find? key = set.entries.find? key := by
  -- Once the key has been met, the first half of `h` holds to the end.
  induction xs generalizing target with
  | nil =>
    rcases h with h | ⟨-, x, hx, -⟩
    · exact h
    · exact absurd hx List.not_mem_nil
  | cons x rest ih =>
    unfold collect
    by_cases hkey : x.key = key
    · subst hkey
      split
      next value hvalue =>
        refine ih (Or.inl ?_)
        rw [hvalue]
        exact Keyed.find?_insert_self _ _ _
      next hnone =>
        refine ih (Or.inl ?_)
        rcases h with h | ⟨h, -⟩
        · exact h
        · rw [h, hnone]
    · have hrest : target.entries.find? key = set.entries.find? key ∨
          target.entries.find? key = none ∧ ∃ y ∈ rest, y.key = key := by
        rcases h with h | ⟨h, y, hy, hykey⟩
        · exact Or.inl h
        · rcases List.mem_cons.1 hy with rfl | hy
          · exact absurd hykey hkey
          · exact Or.inr ⟨h, y, hy, hykey⟩
      split
      next value _ =>
        have hother : (target.put x.key value).entries.find? key = target.entries.find? key :=
          Keyed.find?_insert_of_ne (Ne.symm hkey) _ _
        rw [← hother] at hrest
        exact ih hrest
      next => exact ih hrest

/-- Going through the fields whose keys are set meets every entry. -/
theorem WellFormed.collect_held {set : ExtensionSet} (hset : set.WellFormed)
    {target : ExtensionSet} (htarget : target.entries = []) :
    (set.collect set.held target).entries = set.entries := by
  refine Keyed.eq_of_find? (set.collect set.held target).sorted set.sorted fun key => ?_
  refine find?_collect set.held ?_
  rw [htarget]
  cases hfind : set.entries.find? key with
  | none => exact Or.inl rfl
  | some value =>
    obtain ⟨shape, x, hshape, hx, -⟩ := hset.declared _ (Keyed.mem_of_find? hfind)
    obtain ⟨hmem, hkey⟩ := ExtensionShape.mem_of_byKey? hx
    refine Or.inr ⟨rfl, x, mem_held.2 ⟨shape, hshape, hmem, ?_⟩, hkey⟩
    rw [contains, Keyed.contains, hkey, hfind]
    rfl

/-- A set without a shape holds nothing. -/
theorem WellFormed.entries_eq_nil {set : ExtensionSet} (hset : set.WellFormed)
    (hshape : set.shape = none) : set.entries = [] := by
  refine List.eq_nil_iff_forall_not_mem.2 fun e he => ?_
  obtain ⟨shape, -, hsome, -⟩ := hset.declared e he
  rw [hshape] at hsome
  cases hsome

/-- Sets with the same entries of library types hold the same data. -/
theorem beq_of_entries {a b : ExtensionSet}
    (hlib : ∀ e ∈ b.entries, e.2.IsLibrary) (h : a.entries = b.entries) : (a == b) = true := by
  show same a b = true
  simp only [same, h, beq_self_eq_true, Bool.true_and, List.all_eq_true]
  intro e he
  rw [Keyed.find?_of_mem b.sorted he]
  exact ExtensionValue.same_self (hlib e he)

/-! ## Sets that come back -/

/-- A set that can be carried through a form when a shape is in force: built by the operations, with
values of library types, and with that shape if it holds anything. -/
structure Portable (set : ExtensionSet) (shape? : Option ExtensionShape) : Prop where
  built : set.Built
  library : ∀ e ∈ set.entries, e.2.IsLibrary
  bound : set.entries ≠ [] → set.shape = shape?

/-- What is written under a key is found and read by the shape in force. -/
theorem Portable.decode_of_entryOf {set : ExtensionSet} {shape? : Option ExtensionShape}
    (hset : set.Portable shape?) {z : ExtensionField} (hz : z ∈ set.held) {f : Form}
    {e : FieldKey × f.Value} (he : set.EntryOf f z e) :
    shape?.bind (·.byWire? f (f.keyOf z.wire)) = some z ∧
      ∃ value, set.entries.find? z.key = some value ∧ z.decode f e.2 = .ok value := by
  obtain ⟨-, value, hvalue, hv⟩ := he
  obtain ⟨shape, hshape, hmem, -⟩ := mem_held.1 hz
  have hentry := Keyed.mem_of_find? hvalue
  have hdistinct := hset.built.wellFormed.distinct shape hshape
  constructor
  · rw [← hset.bound (List.ne_nil_of_mem hentry), hshape]
    exact hdistinct.byWire?_of_mem f hmem
  · -- The decoder that the field declares is the one of the value's own type.
    obtain ⟨shape', x, hshape', hx, hsame⟩ := hset.built.wellFormed.declared _ hentry
    obtain rfl : shape = shape' := Option.some.inj (hshape.symm.trans hshape')
    obtain rfl : z = x := by
      rw [hdistinct.byKey?_of_mem hmem] at hx
      exact Option.some.inj hx
    have htype : z.type = value.type := ExtensionValue.type_eq_of_same (hset.library _ hentry) hsame
    refine ⟨value, hvalue, ?_⟩
    rw [ExtensionField.decode, htype, ExtensionValue.decode_encode (hset.library _ hentry) hv]
    rfl

/-- Nothing of what the set writes in a form stands under the key of one of the fixed fields. -/
def Clear (set : ExtensionSet) (f : Form) (fixed : List FieldKey) : Prop :=
  ∀ z ∈ set.held, ∀ k ∈ fixed, f.keyOf k ≠ f.keyOf z.wire

end ExtensionSet

end Rim
