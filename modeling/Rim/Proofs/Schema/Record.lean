import Mathlib.Data.List.Pairwise
import Mathlib.Tactic.MkIffOfInductiveProp
import Rim.Proofs.Extension.Map
import Rim.Proofs.Extension.Set
import Rim.Proofs.Registry
import Rim.Proofs.Schema.Form

/-!
# Records are read back field by field

* `LawfulRecord`: the fields of a kind of record have keys and places of their own, apart from the
  place of its extension set.
* `Wire.Returns`: whatever is written of a content is read back as the same data.
* `Field.Kept`: what has been read holds in a field what was read of what had been written.
* `Record.Restorable`: a record's own extension set can be carried through a form.
* `Record.nodup_keyOf_encode`: a record is written under keys that are all distinct.
* `Record.decode_encode`: a record is read back with every field kept and with the entries of its
  extension set.
-/

namespace Rim

/-! ## Laws -/

/-- Two fields that do not meet in the record. -/
@[mk_iff]
structure Field.Apart {R : Type} (x y : Field R) : Prop where
  get_set : ∀ b r, x.get (y.set b r) = x.get r
  set_comm : ∀ a b r, x.set a (y.set b r) = y.set b (x.set a r)

/-- The place of the extension set does not meet a field. -/
@[mk_iff]
structure ExtensionHost.Apart {R : Type} (h : ExtensionHost R) (x : Field R) : Prop where
  get_set : ∀ b r, h.get (x.set b r) = h.get r
  field_get : ∀ s r, x.get (h.set s r) = x.get r
  set_comm : ∀ b s r, x.set b (h.set s r) = h.set s (x.set b r)

/-- The place of the extension set is one, and its point belongs to the base schema. -/
structure ExtensionHost.Lawful {R : Type} [Record R] (h : ExtensionHost R) : Prop where
  get_empty : h.get Record.empty = .empty
  get_set : ∀ s r, h.get (h.set s r) = s
  set_get : ∀ r, h.set (h.get r) r = r
  set_set : ∀ s t r, h.set s (h.set t r) = h.set s r
  apart : ∀ x ∈ Record.fields (R := R), h.Apart x
  point : .own h.pointName ((Record.fields (R := R)).map (·.key)) ∈ ExtensionPoint.all

/-- The fields have keys and places of their own, apart from the place of the extension set. -/
class LawfulRecord (R : Type) [Record R] : Prop where
  slots : ((Record.fields (R := R)).map (·.key.slot)).Nodup
  names : ((Record.fields (R := R)).map (·.key.name)).Nodup
  get_empty : ∀ x ∈ Record.fields (R := R), x.get Record.empty = none
  set_set : ∀ x ∈ Record.fields (R := R), ∀ b r, x.set b (x.set b r) = x.set b r
  apart : (Record.fields (R := R)).Pairwise fun x y => x.Apart y ∧ y.Apart x
  host : ∀ h, Record.host (R := R) = some h → h.Lawful

/-! ## Contents -/

namespace Wire

variable {α : Type}

/-- The second content is what is read of what is written of the first. -/
def Carries (w : Wire α) (f : Form) (sc : Scope) (a b : α) : Prop :=
  ∃ v, w.encode f sc.types a = .ok v ∧ f.Sized v ∧ w.decode f sc v = ⟨0, .ok b⟩

/-- Whatever is written of the content is read back as the same data. -/
def Returns [BEq α] (w : Wire α) (f : Form) (sc : Scope) (a : α) : Prop :=
  ∀ v, w.encode f sc.types a = .ok v → f.Sized v →
    ∃ b, w.decode f sc v = ⟨0, .ok b⟩ ∧ (b == a) = true

theorem Returns.beq_of_carries [BEq α] {w : Wire α} {f : Form} {sc : Scope} {a b : α}
    (h : w.Returns f sc a) (hb : w.Carries f sc a b) : (b == a) = true := by
  obtain ⟨v, hv, hsize, hdecode⟩ := hb
  obtain ⟨b', hdecode', hsame⟩ := h v hv hsize
  rw [hdecode] at hdecode'
  obtain rfl : b = b' := by simpa using hdecode'
  exact hsame

/-- Values of an inverse coding are read back. -/
theorem returns_of_inverse [BEq α] [ReflBEq α] {c : Coding α} {f : Form} {sc : Scope} {a : α}
    (h : c.Inverse f a) : c.toWire.Returns f sc a := by
  intro v hv _
  refine ⟨a, ?_, beq_self_eq_true a⟩
  show Decoding.ofExcept (c.decode f v) = _
  rw [h v hv]
  rfl

theorem beq_of_forall₂ [BEq α] {as bs : List α}
    (h : List.Forall₂ (fun a b => (b == a) = true) as bs) : (bs == as) = true := by
  induction h with
  | nil => rfl
  | cons hab _ ih => rw [List.cons_beq_cons, hab, ih, Bool.and_self]

theorem forall₂_of_returns [BEq α] {w : Wire α} {f : Form} {sc : Scope} {as : List α}
    {items : List f.Value}
    (hitems : List.Forall₂ (fun a item => w.encode f sc.types a = .ok item) as items)
    (h : ∀ a ∈ as, w.Returns f sc a) (hsize : ∀ item ∈ items, f.Sized item) :
    ∃ bs, List.Forall₂ (fun item b => w.decode f sc item = ⟨0, .ok b⟩) items bs ∧
      List.Forall₂ (fun a b => (b == a) = true) as bs := by
  induction hitems with
  | nil => exact ⟨[], .nil, .nil⟩
  | cons hencode _ ih =>
    obtain ⟨b, hdecode, hsame⟩ := h _ (by simp) _ hencode (hsize _ (by simp))
    obtain ⟨bs, hdecodes, hsames⟩ := ih (fun a ha => h a (List.mem_cons_of_mem _ ha))
      fun item hitem => hsize item (List.mem_cons_of_mem _ hitem)
    exact ⟨b :: bs, .cons hdecode hdecodes, .cons hsame hsames⟩

/-- Lists are read back if their elements are. -/
theorem returns_list [BEq α] {w : Wire α} {f : Form} {sc : Scope} {as : List α}
    (h : ∀ a ∈ as, w.Returns f sc a) : (list w).Returns f sc as := by
  intro v hv hsize
  obtain ⟨items, hitems, hv⟩ := Except.bind_eq_ok_iff.1 hv
  obtain rfl := Except.pure_eq_ok_iff.1 hv
  obtain ⟨bs, hdecodes, hsames⟩ := forall₂_of_returns (Except.mapM_eq_ok_iff.1 hitems) h
    fun item hitem => hsize.of_mem_array hitem
  refine ⟨bs, ?_, beq_of_forall₂ hsames⟩
  show (Decoding.ofExcept (f.elements (f.array items)) >>= fun items =>
    Decoding.list (w.decode f sc) items) = _
  rw [Form.elements_array]
  exact Decoding.bind_eq_ok_iff.2
    ⟨0, 0, items, rfl, Decoding.listFrom_of_forall₂ hdecodes 0, rfl⟩

end Wire

/-! ## Fields -/

namespace Field

variable {R : Type}

/-- In a field that was absent nothing has been read, and in one that was present what was read of
what had been written. -/
structure Kept (x : Field R) (f : Form) (sc : Scope) (r y : R) : Prop where
  absent : x.get r = none → x.get y = none
  present : ∀ a, x.get r = some a → ∃ b, x.wire.Carries f sc a b ∧ x.set b y = y

/-- Whatever is written of the field is read. -/
def Reads (x : Field R) (f : Form) (sc : Scope) (r : R) : Prop :=
  ∀ a, x.get r = some a → ∀ v, x.wire.encode f sc.types a = .ok v → f.Sized v →
    ∃ b, x.wire.decode f sc v = ⟨0, .ok b⟩

theorem reads_option {α : Type} [BEq α] {slot : Int64} {name : String} {wire : Wire α}
    {get : R → Option α} {set : α → R → R} {f : Form} {sc : Scope} {r : R}
    (h : ∀ a, get r = some a → wire.Returns f sc a) :
    (Field.of slot name wire get set).Reads f sc r := by
  intro a ha v hv hsize
  obtain ⟨b, hb, -⟩ := h a ha v hv hsize
  exact ⟨b, hb⟩

theorem eq_of_present? {α : Type} {xs ys : List α} (h : present? xs = some ys) : ys = xs := by
  unfold present? at h
  split at h
  · cases h
  · exact (Option.some.inj h).symm

theorem eq_nil_of_present? {α : Type} {xs : List α} (h : present? xs = none) : xs = [] := by
  unfold present? at h
  split at h
  next hempty => exact List.isEmpty_iff.1 hempty
  next => cases h

theorem reads_list {α : Type} [BEq α] {slot : Int64} {name : String} {wire : Wire (List α)}
    {get : R → List α} {set : List α → R → R} {f : Form} {sc : Scope} {r : R}
    (h : wire.Returns f sc (get r)) :
    (Field.of slot name wire (fun r => present? (get r)) set).Reads f sc r := by
  intro a ha v hv hsize
  obtain rfl := eq_of_present? ha
  obtain ⟨b, hb, -⟩ := h v hv hsize
  exact ⟨b, hb⟩

/-- An optional field that is kept holds the same data. -/
theorem Kept.option_beq {α : Type} [BEq α] {slot : Int64} {name : String} {wire : Wire α}
    {get : R → Option α} {set : α → R → R} {f : Form} {sc : Scope} {r y : R}
    (h : (Field.of slot name wire get set).Kept f sc r y)
    (hset : ∀ b y, get (set b y) = some b)
    (hreturns : ∀ a, get r = some a → wire.Returns f sc a) : (get y == get r) = true := by
  cases hr : get r with
  | none =>
    rw [show get y = none from h.absent hr]
    rfl
  | some a =>
    obtain ⟨b, hcarries, hy⟩ := h.present a hr
    have hb : get y = some b := by
      have hget := hset b y
      rwa [show set b y = y from hy] at hget
    rw [hb]
    exact (hreturns a hr).beq_of_carries hcarries

theorem Kept.option_eq {α : Type} [BEq α] [LawfulBEq α] {slot : Int64} {name : String}
    {wire : Wire α} {get : R → Option α} {set : α → R → R} {f : Form} {sc : Scope} {r y : R}
    (h : (Field.of slot name wire get set).Kept f sc r y)
    (hset : ∀ b y, get (set b y) = some b)
    (hreturns : ∀ a, get r = some a → wire.Returns f sc a) : get y = get r :=
  eq_of_beq (h.option_beq hset hreturns)

/-- A list that is kept holds the same data. -/
theorem Kept.list_beq {α : Type} [BEq α] {slot : Int64} {name : String} {wire : Wire (List α)}
    {get : R → List α} {set : List α → R → R} {f : Form} {sc : Scope} {r y : R}
    (h : (Field.of slot name wire (fun r => present? (get r)) set).Kept f sc r y)
    (hset : ∀ b y, get (set b y) = b)
    (hreturns : wire.Returns f sc (get r)) : (get y == get r) = true := by
  cases hr : present? (get r) with
  | none =>
    rw [eq_nil_of_present? hr, eq_nil_of_present? (h.absent hr)]
    rfl
  | some a =>
    obtain rfl := eq_of_present? hr
    obtain ⟨b, hcarries, hy⟩ := h.present _ hr
    have hb : get y = b := by
      have hget := hset b y
      rwa [show set b y = y from hy] at hget
    rw [hb]
    exact hreturns.beq_of_carries hcarries

/-- An entry on the wire holds the content of a fixed field. -/
def EntryOf (f : Form) (types : TypeTable) (r : R) (x : Field R) (e : FieldKey × f.Value) : Prop :=
  e.1 = x.key ∧ ∃ a, x.get r = some a ∧ x.wire.encode f types a = .ok e.2

/-- A field stays kept when a field apart from it is stored. -/
theorem Kept.store {x z : Field R} {f : Form} {sc : Scope} {r y : R} (h : z.Kept f sc r y)
    (hapart : z.Apart x) (b : x.Content) : z.Kept f sc r (x.set b y) := by
  constructor
  · intro hnone
    rw [hapart.get_set]
    exact h.absent hnone
  · intro a ha
    obtain ⟨c, hc, hset⟩ := h.present a ha
    refine ⟨c, hc, ?_⟩
    rw [hapart.set_comm, hset]

/-- A field stays kept when the extension set is stored. -/
theorem Kept.extend {z : Field R} {host : ExtensionHost R} {f : Form} {sc : Scope} {r y : R}
    (h : z.Kept f sc r y) (hapart : host.Apart z) (set : ExtensionSet) :
    z.Kept f sc r (host.set set y) := by
  constructor
  · intro hnone
    rw [hapart.field_get]
    exact h.absent hnone
  · intro a ha
    obtain ⟨c, hc, hset⟩ := h.present a ha
    refine ⟨c, hc, ?_⟩
    rw [hapart.set_comm, hset]

end Field

namespace Record

variable {R : Type} {f : Form}

/-! ## What is written -/

theorem encodeFields_cons {types : TypeTable} {r : R} {x : Field R} {rest : List (Field R)}
    {entries : List (FieldKey × f.Value)}
    (h : encodeFields f types r (x :: rest) = .ok entries) :
    (x.get r = none ∧ encodeFields f types r rest = .ok entries) ∨
      ∃ a v others, x.get r = some a ∧ x.wire.encode f types a = .ok v ∧
        encodeFields f types r rest = .ok others ∧ entries = (x.key, v) :: others := by
  unfold encodeFields Field.encode at h
  cases hget : x.get r with
  | none =>
    rw [hget] at h
    exact Or.inl ⟨rfl, h⟩
  | some a =>
    rw [hget] at h
    obtain ⟨v, hv, h⟩ := Except.bind_eq_ok_iff.1 h
    obtain ⟨others, hothers, h⟩ := Except.bind_eq_ok_iff.1 h
    exact Or.inr ⟨a, v, others, rfl, hv, hothers, (Except.pure_eq_ok_iff.1 h).symm⟩

/-- What is written of some fields are the entries of those that are present, in order. -/
theorem forall₂_encodeFields {types : TypeTable} {r : R} {xs : List (Field R)}
    {entries : List (FieldKey × f.Value)} (h : encodeFields f types r xs = .ok entries) :
    List.Forall₂ (Field.EntryOf f types r) (xs.filter fun x => (x.get r).isSome) entries := by
  induction xs generalizing entries with
  | nil =>
    rw [← Except.ok.inj h]
    exact .nil
  | cons x rest ih =>
    rcases encodeFields_cons h with ⟨hget, hrest⟩ | ⟨a, v, others, hget, hv, hrest, rfl⟩
    · rw [List.filter_cons, if_neg (by simp [hget])]
      exact ih hrest
    · rw [List.filter_cons, if_pos (by simp [hget])]
      exact .cons ⟨rfl, a, hget, hv⟩ (ih hrest)

/-- Every field that is present has an entry. -/
theorem exists_mem_encodeFields {types : TypeTable} {r : R} {xs : List (Field R)}
    {entries : List (FieldKey × f.Value)} (h : encodeFields f types r xs = .ok entries)
    {x : Field R} (hx : x ∈ xs) {a : x.Content} (ha : x.get r = some a) :
    ∃ v, (x.key, v) ∈ entries ∧ x.wire.encode f types a = .ok v := by
  have hpresent : x ∈ xs.filter fun x => (x.get r).isSome :=
    List.mem_filter.2 ⟨hx, by simp [ha]⟩
  obtain ⟨⟨_, v⟩, he, rfl, b, hb, hv⟩ :=
    exists_mem_right_of_forall₂ (forall₂_encodeFields h) x hpresent
  obtain rfl : a = b := Option.some.inj (ha.symm.trans hb)
  exact ⟨v, he, hv⟩

/-- The entries of the fixed fields are those of the fields that are present. -/
theorem mem_encodeFields {types : TypeTable} {r : R} {xs : List (Field R)}
    {entries : List (FieldKey × f.Value)} (h : encodeFields f types r xs = .ok entries)
    {e : FieldKey × f.Value} :
    e ∈ entries ↔ ∃ x ∈ xs, x.key = e.1 ∧
      ∃ a, x.get r = some a ∧ x.wire.encode f types a = .ok e.2 := by
  constructor
  · intro he
    obtain ⟨x, hx, hkey, a, ha, hv⟩ := exists_mem_left_of_forall₂ (forall₂_encodeFields h) e he
    exact ⟨x, (List.mem_filter.1 hx).1, hkey.symm, a, ha, hv⟩
  · rintro ⟨x, hx, hkey, a, ha, hv⟩
    obtain ⟨w, hmem, hw⟩ := exists_mem_encodeFields h hx ha
    obtain rfl : e.2 = w := Except.ok.inj (hv.symm.trans hw)
    rwa [hkey] at hmem

theorem sublist_encodeFields {types : TypeTable} {r : R} {xs : List (Field R)}
    {entries : List (FieldKey × f.Value)} (h : encodeFields f types r xs = .ok entries) :
    (entries.map (·.1)).Sublist (xs.map (·.key)) := by
  have hkeys : (xs.filter fun x => (x.get r).isSome).map (·.key) = entries.map (·.1) :=
    map_eq_map_of_forall₂ ((forall₂_encodeFields h).imp fun _ _ he => he.1.symm)
  rw [← hkeys]
  exact List.filter_sublist.map _

/-! ## Looking fields up -/

variable [Record R]

theorem nodup_keyOf [LawfulRecord R] (f : Form) :
    ((fields (R := R)).map fun x => f.keyOf x.key).Nodup := by
  cases f with
  | binary => exact LawfulRecord.slots
  | text => exact LawfulRecord.names

theorem field?_of_mem [LawfulRecord R] {x : Field R} (hx : x ∈ fields) :
    field? R f (f.keyOf x.key) = some x := by
  show fields.find? (fun y : Field R => f.keyOf y.key = f.keyOf x.key) = some x
  exact find?_of_nodup_map (nodup_keyOf f) hx

theorem eq_of_keyOf_eq [LawfulRecord R] {x y : Field R} (hx : x ∈ fields) (hy : y ∈ fields)
    (h : f.keyOf x.key = f.keyOf y.key) : x = y :=
  List.inj_on_of_nodup_map (nodup_keyOf f) hx hy h

theorem apart_of_ne [LawfulRecord R] {x y : Field R} (hx : x ∈ fields) (hy : y ∈ fields)
    (h : x ≠ y) : x.Apart y := by
  have hsymm : Std.Symm fun x y : Field R => x.Apart y ∧ y.Apart x :=
    ⟨fun _ _ hxy => ⟨hxy.2, hxy.1⟩⟩
  exact (LawfulRecord.apart.forall hx hy h).1

/-! ## Reading one entry -/

theorem decodeEntries_cons {sc : Scope} {seen : List f.Key} {raw : f.RawKey} {key : f.Key}
    (hkey : f.readKey raw = .ok key) (hseen : key ∉ seen) (v : f.Value)
    (rest : List (f.RawKey × f.Value)) (r : R) :
    decodeEntries f sc seen ((raw, v) :: rest) r =
      (decodeEntry f sc key v r >>= fun r => decodeEntries f sc (key :: seen) rest r) := by
  rw [decodeEntries, hkey]
  show ((⟨0, .ok key⟩ : Decoding f.Key) >>= _) = _
  rw [Decoding.bind_ok, if_neg hseen]
  simp

theorem decodeEntry_field [LawfulRecord R] {sc : Scope} {x : Field R} (hx : x ∈ fields)
    {v : f.Value} {b : x.Content} (hb : x.wire.decode f sc v = ⟨0, .ok b⟩) (r : R) :
    decodeEntry f sc (f.keyOf x.key) v r = ⟨0, .ok (x.set b r)⟩ := by
  rw [decodeEntry, field?_of_mem hx]
  simp [Field.decode, hb, Decoding.mapError, Decoding.pure_eq, Decoding.bind_ok]

theorem decodeEntry_extension {sc : Scope} {h : ExtensionHost R} (hhost : host (R := R) = some h)
    {key : f.Key} (hfree : field? R f key = none) {z : ExtensionField}
    (hz : (shape? R sc.bindings).bind (·.byWire? f key) = some z) {v : f.Value}
    {value : ExtensionValue} (hvalue : z.decode f v = .ok value) (r : R) :
    decodeEntry f sc key v r = ⟨0, .ok (h.set ((h.get r).setDecoded z.key value) r)⟩ := by
  simp only [decodeEntry, hfree, hz, hvalue, mapExtensions, hhost]
  rfl

/-- What a read of an entry and of those after it has done when it succeeds. -/
theorem decodeEntries_cases {sc : Scope} {seen : List f.Key} {raw : f.RawKey} {v : f.Value}
    {rest : List (f.RawKey × f.Value)} {r y : R} {n : Nat}
    (h : decodeEntries f sc seen ((raw, v) :: rest) r = ⟨n, .ok y⟩) :
    ∃ key n₁ n₂ r₁, f.readKey raw = .ok key ∧ key ∉ seen ∧
      decodeEntry f sc key v r = ⟨n₁, .ok r₁⟩ ∧
      decodeEntries f sc (key :: seen) rest r₁ = ⟨n₂, .ok y⟩ ∧ n = n₁ + n₂ := by
  rw [decodeEntries] at h
  obtain ⟨key, hkey, hnext⟩ := Decoding.ofExcept_bind_eq_ok_iff.1 h
  split at hnext
  · cases hnext
  next hseen =>
    obtain ⟨n₁, n₂, r₁, hentry, hrest, rfl⟩ := Decoding.bind_eq_ok_iff.1 hnext
    exact ⟨key, n₁, n₂, r₁, hkey, hseen, hentry, hrest, rfl⟩

/-- The value of a fixed field that has been read. -/
theorem decodeEntry_field_cases {sc : Scope} {key : f.Key} {x : Field R}
    (hx : field? R f key = some x) {v : f.Value} {r y : R} {n : Nat}
    (h : decodeEntry f sc key v r = ⟨n, .ok y⟩) :
    ∃ b, x.wire.decode f sc v = ⟨n, .ok b⟩ ∧ y = x.set b r := by
  simp only [decodeEntry, hx] at h
  obtain ⟨n₁, n₂, store, hstore, hy, rfl⟩ := Decoding.bind_eq_ok_iff.1 h
  obtain ⟨rfl, rfl⟩ := Decoding.pure_eq_ok_iff.1 hy
  obtain ⟨m₁, m₂, b, hb, hset, rfl⟩ :=
    Decoding.bind_eq_ok_iff.1 (Decoding.mapError_eq_ok_iff.1 hstore)
  obtain ⟨rfl, rfl⟩ := Decoding.pure_eq_ok_iff.1 hset
  exact ⟨b, hb, rfl⟩

/-- Every entry of a fixed field has been read. -/
theorem exists_decode_of_mem {sc : Scope} {seen : List f.Key}
    {entries : List (f.RawKey × f.Value)} {r y : R} {n : Nat}
    (h : decodeEntries f sc seen entries r = ⟨n, .ok y⟩) {raw : f.RawKey} {v : f.Value}
    (hmem : (raw, v) ∈ entries) {key : f.Key} (hkey : f.readKey raw = .ok key) {x : Field R}
    (hx : field? R f key = some x) : ∃ m b, x.wire.decode f sc v = ⟨m, .ok b⟩ := by
  induction entries generalizing seen r n with
  | nil => exact absurd hmem List.not_mem_nil
  | cons e rest ih =>
    obtain ⟨key', n₁, n₂, r₁, hkey', -, hentry, hrest, -⟩ := decodeEntries_cases h
    rcases List.mem_cons.1 hmem with rfl | hmem
    · obtain rfl : key' = key := Except.ok.inj (hkey'.symm.trans hkey)
      obtain ⟨b, hb, -⟩ := decodeEntry_field_cases hx hentry
      exact ⟨n₁, b, hb⟩
    · exact ih hrest hmem

/-- A record that is read is read from the entries of its value, in the scope of its profile. -/
theorem decode_cases {sc : Scope} {v : f.Value} {n : Nat} {y : R}
    (h : decode f sc v = ⟨n, .ok y⟩) :
    ∃ entries, f.members v = .ok entries ∧
      decodeEntries f (sc.scopedTo (profileHint R f entries)) [] entries
        (bindOwn (sc.scopedTo (profileHint R f entries)).bindings empty) = ⟨n, .ok y⟩ :=
  Decoding.ofExcept_bind_eq_ok_iff.1 h

/-! ## Reading the fixed fields -/

/-- What has been read holds the fields that were gone through, and no other. -/
structure Restored (f : Form) (sc : Scope) (r : R) (done : List (Field R)) (y : R) : Prop where
  mem : ∀ x ∈ done, x ∈ fields
  kept : ∀ x ∈ done, x.Kept f sc r y
  fresh : ∀ x ∈ fields, x ∉ done → x.get y = none

theorem Restored.skip {sc : Scope} {r y : R} {done : List (Field R)}
    (hy : Restored f sc r done y) {x : Field R} (hx : x ∈ fields) (hdone : x ∉ done)
    (hget : x.get r = none) : Restored f sc r (x :: done) y := by
  have hkept : x.Kept f sc r y := by
    constructor
    · intro _
      exact hy.fresh x hx hdone
    · intro a ha
      rw [hget] at ha
      cases ha
  exact ⟨List.forall_mem_cons.2 ⟨hx, hy.mem⟩, List.forall_mem_cons.2 ⟨hkept, hy.kept⟩,
    fun z hz hzdone => hy.fresh z hz fun h => hzdone (List.mem_cons_of_mem _ h)⟩

theorem Restored.store [LawfulRecord R] {sc : Scope} {r y : R} {done : List (Field R)}
    (hy : Restored f sc r done y) {x : Field R} (hx : x ∈ fields) (hdone : x ∉ done)
    {a b : x.Content} (hget : x.get r = some a) (hb : x.wire.Carries f sc a b) :
    Restored f sc r (x :: done) (x.set b y) := by
  have hkept : x.Kept f sc r (x.set b y) := by
    constructor
    · intro hnone
      rw [hget] at hnone
      cases hnone
    · intro a' ha'
      rw [hget] at ha'
      obtain rfl := Option.some.inj ha'
      exact ⟨b, hb, LawfulRecord.set_set x hx b y⟩
  refine ⟨List.forall_mem_cons.2 ⟨hx, hy.mem⟩, List.forall_mem_cons.2 ⟨hkept, fun z hz => ?_⟩,
    fun z hz hzdone => ?_⟩
  · have hne : z ≠ x := fun heq => hdone (heq ▸ hz)
    exact (hy.kept z hz).store (apart_of_ne (hy.mem z hz) hx hne) b
  · have hne : z ≠ x := by
      rintro rfl
      exact hzdone (by simp)
    rw [(apart_of_ne hz hx hne).get_set]
    exact hy.fresh z hz fun h => hzdone (List.mem_cons_of_mem _ h)

/-- The entries of the fixed fields are read into their fields, one after the other. -/
theorem decodeEntries_fields [LawfulRecord R] {sc : Scope} {r : R} (rest : List (Field R))
    {done : List (Field R)} {entries : List (FieldKey × f.Value)} {seen : List f.Key} {y : R}
    (hentries : encodeFields f sc.types r rest = .ok entries)
    (hread : ∀ x ∈ rest, x.Reads f sc r)
    (hsize : ∀ e ∈ entries, f.Sized e.2) (hrest : ∀ x ∈ rest, x ∈ fields ∧ x ∉ done)
    (hnodup : rest.Nodup) (hy : Restored f sc r done y)
    (hseen : ∀ k ∈ seen, ∃ x ∈ done, f.keyOf x.key = k) (tail : List (f.RawKey × f.Value)) :
    ∃ seen' y', decodeEntries f sc seen (f.raw entries ++ tail) y =
        decodeEntries f sc seen' tail y' ∧
      Restored f sc r (rest.reverse ++ done) y' ∧
      (∀ k ∈ seen', ∃ x ∈ fields (R := R), f.keyOf x.key = k) ∧
      ∀ h, host (R := R) = some h → h.get y' = h.get y := by
  -- The fields gone through so far are what has been seen: `Restored` and `hseen` say the same of
  -- the record and of the keys.
  induction rest generalizing done entries seen y with
  | nil =>
    obtain rfl : [] = entries := Except.ok.inj hentries
    -- No field is left: every key seen is the key of one that was gone through.
    refine ⟨seen, y, rfl, hy, fun k hk => ?_, fun _ _ => rfl⟩
    obtain ⟨x, hx, hkey⟩ := hseen k hk
    exact ⟨x, hy.mem x hx, hkey⟩
  | cons x rest ih =>
    obtain ⟨hx, hdone⟩ := hrest x (by simp)
    obtain ⟨hnotin, hnodup⟩ := List.nodup_cons.1 hnodup
    have hrest' : ∀ z ∈ rest, z ∈ fields ∧ z ∉ x :: done := by
      intro z hz
      obtain ⟨hzfields, hzdone⟩ := hrest z (List.mem_cons_of_mem _ hz)
      refine ⟨hzfields, fun hmem => ?_⟩
      rcases List.mem_cons.1 hmem with rfl | hmem
      · exact hnotin hz
      · exact hzdone hmem
    have hread' := fun z hz => hread z (List.mem_cons_of_mem x hz)
    have happend : (x :: rest).reverse ++ done = rest.reverse ++ (x :: done) := by simp
    rw [happend]
    rcases encodeFields_cons hentries with ⟨hget, hothers⟩ | ⟨a, v, others, hget, hv, hothers, rfl⟩
    · -- An absent field has no entry, and stays absent in what has been read.
      refine ih hothers hread' hsize hrest' hnodup (hy.skip hx hdone hget) fun k hk => ?_
      obtain ⟨z, hz, hkey⟩ := hseen k hk
      exact ⟨z, List.mem_cons_of_mem _ hz, hkey⟩
    · have hvsize : f.Sized v := hsize (x.key, v) (by simp)
      obtain ⟨b, hb⟩ := hread x (by simp) a hget v hv hvsize
      -- A key that had been seen would be the key of a field that was gone through, hence of `x`.
      have hfree : f.keyOf x.key ∉ seen := by
        intro hmem
        obtain ⟨z, hz, hkey⟩ := hseen _ hmem
        rw [eq_of_keyOf_eq (hy.mem z hz) hx hkey] at hz
        exact hdone hz
      have hseen' : ∀ k ∈ f.keyOf x.key :: seen, ∃ z ∈ x :: done, f.keyOf z.key = k := by
        intro k hk
        rcases List.mem_cons.1 hk with rfl | hk
        · exact ⟨x, by simp, rfl⟩
        · obtain ⟨z, hz, hkey⟩ := hseen k hk
          exact ⟨z, List.mem_cons_of_mem _ hz, hkey⟩
      obtain ⟨seen', y', hdecode, hrestored, hkeys, hown⟩ :=
        ih hothers hread' (fun e he => hsize e (List.mem_cons_of_mem _ he)) hrest' hnodup
          (hy.store hx hdone hget ⟨v, hv, hvsize, hb⟩) hseen'
      refine ⟨seen', y', ?_, hrestored, hkeys, fun h hh => ?_⟩
      · show decodeEntries f sc seen ((f.rawKey x.key, v) :: (f.raw others ++ tail)) y = _
        rw [decodeEntries_cons (f.readKey_rawKey x.key) hfree, decodeEntry_field hx hb,
          Decoding.bind_ok, hdecode, Nat.zero_add]
      · rw [hown h hh, ((LawfulRecord.host h hh).apart x hx).get_set]

/-! ## The extensions -/

/-- What is written of the extensions are entries of the record's own set, if it has one. -/
theorem encodeExtensions_cases {r : R} {entries : List (FieldKey × f.Value)}
    (h : encodeExtensions f r = .ok entries) :
    (host (R := R) = none ∧ entries = []) ∨
      ∃ h, host (R := R) = some h ∧ (h.get r).encode f = .ok entries := by
  unfold encodeExtensions at h
  split at h
  next host hhost => exact Or.inr ⟨host, hhost, h⟩
  next hhost => exact Or.inl ⟨hhost, (Except.ok.inj h).symm⟩

/-- The record's own set can be carried through a form when the shapes of a map are in force, and
leaves the keys of the fixed fields to them. -/
def Restorable (f : Form) (m : ExtensionMap) (r : R) : Prop :=
  ∀ h, host (R := R) = some h →
    (h.get r).Portable (shape? R m) ∧ (h.get r).Clear f ((fields (R := R)).map (·.key))

/-- The entries of a record have distinct keys in a form, if those of its own set have, and leave
the keys of the fixed fields to them. -/
theorem nodup_keyOf_encode [LawfulRecord R] {types : TypeTable} {r : R}
    {fixed extensions : List (FieldKey × f.Value)}
    (hfixed : encodeFields f types r fields = .ok fixed)
    (hextensions : encodeExtensions f r = .ok extensions) {g : Form}
    (hset : ∀ h, host (R := R) = some h → ((h.get r).held.map fun z => g.keyOf z.wire).Nodup ∧
      (h.get r).Clear g ((fields (R := R)).map (·.key))) :
    ((fixed ++ extensions).map fun e => g.keyOf e.1).Nodup := by
  have hkeys : (fixed.map fun e => g.keyOf e.1).Nodup := by
    have hsub := (sublist_encodeFields hfixed).map g.keyOf
    rw [List.map_map, List.map_map] at hsub
    exact hsub.nodup (nodup_keyOf g)
  rcases encodeExtensions_cases hextensions with ⟨-, rfl⟩ | ⟨h, hhost, hentries⟩
  · rw [List.append_nil]
    exact hkeys
  · obtain ⟨hnodup, hclear⟩ := hset h hhost
    have hothers : (extensions.map fun e => g.keyOf e.1) =
        (h.get r).held.map fun z => g.keyOf z.wire := by
      have hwires := congrArg (List.map g.keyOf) (ExtensionSet.map_fst_encode hentries)
      rwa [List.map_map, List.map_map] at hwires
    rw [List.map_append, List.nodup_append, hothers]
    refine ⟨hkeys, hnodup, fun key hkey other hother => ?_⟩
    obtain ⟨e, he, rfl⟩ := List.mem_map.1 hkey
    obtain ⟨z, hz, rfl⟩ := List.mem_map.1 hother
    obtain ⟨x, hx, hxkey, -⟩ := (mem_encodeFields hfixed).1 he
    rw [← hxkey]
    exact hclear z hz x.key (List.mem_map_of_mem hx)

theorem Restorable.nodup_keyOf [LawfulRecord R] {types : TypeTable} {m : ExtensionMap} {r : R}
    (hset : Restorable f m r) {fixed extensions : List (FieldKey × f.Value)}
    (hfixed : encodeFields f types r fields = .ok fixed)
    (hextensions : encodeExtensions f r = .ok extensions) :
    ((fixed ++ extensions).map fun e => f.keyOf e.1).Nodup :=
  nodup_keyOf_encode hfixed hextensions fun h hhost =>
    ⟨ExtensionSet.nodup_held (hset h hhost).1.built.wellFormed.distinct f, (hset h hhost).2⟩

/-- The entries of a set are read into the set of a record, one after the other. -/
theorem decodeEntries_extensions [LawfulRecord R] {sc : Scope} {h : ExtensionHost R}
    (hhost : host (R := R) = some h) {set : ExtensionSet}
    (hset : set.Portable (shape? R sc.bindings))
    (hclear : set.Clear f ((fields (R := R)).map (·.key)))
    {zs : List ExtensionField} {entries : List (FieldKey × f.Value)}
    (hentries : List.Forall₂ (set.EntryOf f) zs entries) (hzs : zs ⊆ set.held)
    (hnodup : (zs.map fun z => f.keyOf z.wire).Nodup) {seen : List f.Key}
    (hseen : ∀ z ∈ zs, f.keyOf z.wire ∉ seen) (y : R) :
    decodeEntries f sc seen (f.raw entries) y =
      ⟨0, .ok (h.set (set.collect zs (h.get y)) y)⟩ := by
  have hlaw := LawfulRecord.host h hhost
  induction hentries generalizing seen y with
  | nil =>
    show (⟨0, .ok y⟩ : Decoding R) = ⟨0, .ok (h.set (h.get y) y)⟩
    rw [hlaw.set_get]
  | @cons z e zs entries he _ ih =>
    obtain ⟨hz, hzs⟩ := List.cons_subset.1 hzs
    obtain ⟨hnotin, hnodup⟩ := List.nodup_cons.1 hnodup
    obtain ⟨hfound, value, hvalue, hdecode⟩ := hset.decode_of_entryOf hz he
    have hfree : field? R f (f.keyOf z.wire) = none :=
      List.find?_eq_none.2 fun x hx => by
        simpa using hclear z hz x.key (List.mem_map_of_mem hx)
    have hseen' : ∀ w ∈ zs, f.keyOf w.wire ∉ f.keyOf z.wire :: seen := by
      intro w hw hmem
      rcases List.mem_cons.1 hmem with heq | hmem
      · exact hnotin (List.mem_map.2 ⟨w, hw, heq⟩)
      · exact hseen w (List.mem_cons_of_mem _ hw) hmem
    have hkey : f.readKey (f.rawKey e.1) = .ok (f.keyOf z.wire) := by
      rw [f.readKey_rawKey, he.1]
    rw [ExtensionSet.collect, hvalue]
    show decodeEntries f sc seen ((f.rawKey e.1, e.2) :: f.raw entries) y = _
    rw [decodeEntries_cons hkey (hseen z (by simp)),
      decodeEntry_extension hhost hfree hfound hdecode, Decoding.bind_ok,
      ih hzs hnodup hseen', hlaw.get_set, hlaw.set_set]
    rfl

/-! ## Reading a whole record -/

theorem encode_cases {types : TypeTable} {r : R} {v : f.Value} (h : encode f types r = .ok v) :
    ∃ fixed extensions, encodeFields f types r fields = .ok fixed ∧
      encodeExtensions f r = .ok extensions ∧ v = f.record (fixed ++ extensions) := by
  obtain ⟨fixed, hfixed, h⟩ := Except.bind_eq_ok_iff.1 h
  obtain ⟨extensions, hextensions, h⟩ := Except.bind_eq_ok_iff.1 h
  exact ⟨fixed, extensions, hfixed, hextensions, (Except.pure_eq_ok_iff.1 h).symm⟩

/-- The record without any field holds none when it has got the shape in force. -/
theorem field_get_bindOwn_empty [LawfulRecord R] {x : Field R} (hx : x ∈ fields)
    (m : ExtensionMap) : x.get (bindOwn m (empty : R)) = none := by
  unfold bindOwn mapExtensions
  split
  next h hhost =>
    rw [((LawfulRecord.host h hhost).apart x hx).field_get, LawfulRecord.get_empty x hx]
  next => exact LawfulRecord.get_empty x hx

theorem restored_bindOwn [LawfulRecord R] (sc : Scope) (m : ExtensionMap) (r : R) :
    Restored f sc r [] (bindOwn m (empty : R)) :=
  ⟨fun _ hx => absurd hx List.not_mem_nil, fun _ hx => absurd hx List.not_mem_nil,
    fun _ hx _ => field_get_bindOwn_empty hx m⟩

theorem entries_bindOwn_empty [LawfulRecord R] {h : ExtensionHost R}
    (hhost : host (R := R) = some h) (m : ExtensionMap) :
    (h.get (bindOwn m empty)).entries = [] := by
  have hlaw := LawfulRecord.host h hhost
  simp only [bindOwn, mapExtensions, hhost]
  rw [hlaw.get_set, hlaw.get_empty]
  cases shape? R m <;> rfl

/-- After the fixed fields, the entries of the extensions are read into the record's own set. -/
theorem decodeEntries_own [LawfulRecord R] {sc : Scope} {r y : R}
    {extensions : List (FieldKey × f.Value)} (hextensions : encodeExtensions f r = .ok extensions)
    (hset : Restorable f sc.bindings r)
    {seen : List f.Key} (hseen : ∀ k ∈ seen, ∃ x ∈ fields (R := R), f.keyOf x.key = k)
    (hown : ∀ h, host (R := R) = some h → (h.get y).entries = [])
    (hkept : ∀ x ∈ fields (R := R), x.Kept f sc r y) :
    ∃ y', decodeEntries f sc seen (f.raw extensions) y = ⟨0, .ok y'⟩ ∧
      (∀ x ∈ fields (R := R), x.Kept f sc r y') ∧
      ∀ h, host (R := R) = some h → (h.get y' == h.get r) = true := by
  rcases encodeExtensions_cases hextensions with ⟨hnone, rfl⟩ | ⟨h, hhost, hentries⟩
  · refine ⟨y, rfl, hkept, fun h hhost => ?_⟩
    rw [hnone] at hhost
    cases hhost
  · obtain ⟨hportable, hclear⟩ := hset h hhost
    have hwf := hportable.built.wellFormed
    have hlaw := LawfulRecord.host h hhost
    -- The keys seen so far are those of fixed fields, which no entry of the set takes.
    have hfree : ∀ z ∈ (h.get r).held, f.keyOf z.wire ∉ seen := by
      intro z hz hmem
      obtain ⟨x, hx, hkey⟩ := hseen _ hmem
      exact hclear z hz x.key (List.mem_map_of_mem hx) hkey
    rw [decodeEntries_extensions hhost hportable hclear (ExtensionSet.encode_held hentries)
      (List.Subset.refl _) (ExtensionSet.nodup_held hwf.distinct f) hfree]
    refine ⟨_, rfl, fun x hx => (hkept x hx).extend (hlaw.apart x hx) _, fun h' hh' => ?_⟩
    obtain rfl : h = h' := Option.some.inj (hhost.symm.trans hh')
    refine ExtensionSet.beq_of_entries hportable.library ?_
    rw [hlaw.get_set]
    exact hwf.collect_held (hown h hhost)

/-- A record whose contents are read back is read back, with every field kept and with the entries
of its extension set. The scope is the one that the profile named by the record puts in force. -/
theorem decode_encode [LawfulRecord R] {sc : Scope} {profile : Option ProfileId} {r : R}
    {v : f.Value} (hv : encode f sc.types r = .ok v) (hsize : f.Sized v)
    (hprofile : ∀ entries, f.members v = .ok entries → profileHint R f entries = profile)
    (hread : ∀ x ∈ fields, x.Reads f (sc.scopedTo profile) r)
    (hset : Restorable f (sc.scopedTo profile).bindings r) :
    ∃ y, decode f sc v = ⟨0, .ok y⟩ ∧
      (∀ x ∈ fields, x.Kept f (sc.scopedTo profile) r y) ∧
      ∀ h, host (R := R) = some h → (h.get y == h.get r) = true := by
  obtain ⟨fixed, extensions, hfixed, hextensions, rfl⟩ := encode_cases hv
  have hmembers := Form.members_record (hset.nodup_keyOf hfixed hextensions)
  have hhint := hprofile _ hmembers
  have hdecode : decode f sc (f.record (fixed ++ extensions)) =
      decodeEntries f (sc.scopedTo profile) [] (f.raw fixed ++ f.raw extensions)
        (bindOwn (sc.scopedTo profile).bindings (empty : R)) := by
    rw [decode, hmembers]
    show ((⟨0, .ok (f.raw (fixed ++ extensions))⟩ : Decoding _) >>= _) = _
    rw [Decoding.bind_ok, hhint, Form.raw, List.map_append]
    simp [Form.raw]
  rw [hdecode]
  -- From here on only the scope that the profile puts in force matters.
  generalize hsc : sc.scopedTo profile = inner at *
  have htypes : inner.types = sc.types := by rw [← hsc, Scope.types_scopedTo]
  rw [← htypes] at hfixed
  -- First the fixed fields are read, then the extensions into the set they left alone.
  obtain ⟨seen, y, hfields, hrestored, hseen, hown⟩ :=
    decodeEntries_fields (fields (R := R)) hfixed hread
    (fun e he => hsize.of_mem_record (List.mem_append_left _ he))
    (fun _ hx => ⟨hx, List.not_mem_nil⟩) (List.Nodup.of_map _ (LawfulRecord.names (R := R)))
    (restored_bindOwn (R := R) inner inner.bindings r) (fun k hk => absurd hk List.not_mem_nil)
    (f.raw extensions)
  have hkept : ∀ x ∈ fields (R := R), x.Kept f inner r y := fun x hx =>
    hrestored.kept x (by simpa using hx)
  rw [hfields]
  refine decodeEntries_own hextensions hset hseen (fun h hhost => ?_) hkept
  rw [hown h hhost, entries_bindOwn_empty hhost]

/-- A kind of record that names no profile is returned by its wire, if its fields are read and if
records with the same data in every field are the same data. -/
theorem returns_of_kept [LawfulRecord R] [BEq R] (hprofile : profileField (R := R) = none)
    {sc : Scope} {r : R} (hread : (fields (R := R)).Forall fun x => x.Reads f sc r)
    (hset : Restorable f sc.bindings r)
    (hsame : ∀ y, ((fields (R := R)).Forall fun x => x.Kept f sc r y) →
      (∀ h, host (R := R) = some h → (h.get y == h.get r) = true) → (y == r) = true) :
    (wire R).Returns f sc r := by
  intro v hv hsize
  have hhint : ∀ entries, f.members v = .ok entries → profileHint R f entries = none := by
    intro entries _
    simp [profileHint, hprofile]
  have hscope : Restorable f (sc.scopedTo none).bindings r := hset
  obtain ⟨y, hy, hkept, hown⟩ := decode_encode hv hsize hhint
    (List.forall_iff_forall_mem.1 hread) hscope
  exact ⟨y, hy, hsame y (List.forall_iff_forall_mem.2 hkept) hown⟩

/-- The same of a kind of record that cannot be extended. -/
theorem returns_of_kept_fixed [LawfulRecord R] [BEq R] (hprofile : profileField (R := R) = none)
    (hhost : host (R := R) = none) {sc : Scope} {r : R}
    (hread : (fields (R := R)).Forall fun x => x.Reads f sc r)
    (hsame : ∀ y, ((fields (R := R)).Forall fun x => x.Kept f sc r y) → (y == r) = true) :
    (wire R).Returns f sc r := by
  have hnone : ∀ h, host (R := R) ≠ some h := fun h hh => by
    rw [hhost] at hh
    cases hh
  exact returns_of_kept hprofile hread (fun h hh => absurd hh (hnone h)) fun y hkept _ =>
    hsame y hkept

end Record

end Rim
