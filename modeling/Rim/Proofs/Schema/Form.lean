import Rim.Proofs.Cbor.RoundTrip
import Rim.Proofs.Json.RoundTrip
import Rim.Proofs.Wire.Coding

/-!
# The two forms at once

* `Form.members_record`: a record of entries with distinct keys has these entries for members.
* `Form.Sized`: values whose octets can be counted in 64 bits; the parts of one are sized too.
* `Form.Readable`: values that nest at most a number of levels and are read back from octets.
* `Form.parse_print`: the octets of a readable value are the value.
-/

namespace Rim.Form

/-! ## Members of records -/

/-- What stands in the place of the key of a field. -/
def rawKey : (f : Form) → FieldKey → f.RawKey
  | .binary, k => Cbor.ofInt64 k.slot
  | .text, k => k.name

@[simp] theorem readKey_rawKey (f : Form) (k : FieldKey) :
    f.readKey (f.rawKey k) = .ok (f.keyOf k) := by
  cases f with
  | binary => exact Cbor.expectInt_ofInt64 k.slot
  | text => rfl

/-- The members of a record of some entries. -/
def raw (f : Form) (entries : List (FieldKey × f.Value)) : List (f.RawKey × f.Value) :=
  entries.map fun e => (f.rawKey e.1, e.2)

/-- A record of entries with distinct keys has these entries for members. -/
theorem members_record {f : Form} {entries : List (FieldKey × f.Value)}
    (h : (entries.map fun e => f.keyOf e.1).Nodup) :
    f.members (f.record entries) = .ok (f.raw entries) := by
  cases f with
  | binary => rfl
  | text =>
    have hnames : ((entries.map fun e => (e.1.name, e.2)).map (·.1)).Nodup := by
      rw [List.map_map]
      exact h
    show Except.ok (Json.Members.ofList (entries.map fun e => (e.1.name, e.2))) = _
    rw [Json.Members.ofList_of_nodup hnames]
    rfl

/-! ## The first entry of a key -/

/-- The first of the entries under a key has the value. -/
def FirstUnder (f : Form) (key : FieldKey) (entries : List (f.RawKey × f.Value)) (w : f.Value) :
    Prop :=
  ∃ before raw after, entries = before ++ (raw, w) :: after ∧ f.readKey raw = .ok (f.keyOf key) ∧
    ∀ e ∈ before, f.readKey e.1 ≠ .ok (f.keyOf key)

/-- The first entry is what a search for the key finds. -/
theorem FirstUnder.find?_eq {f : Form} {key : FieldKey} {entries : List (f.RawKey × f.Value)}
    {w : f.Value} (h : f.FirstUnder key entries w) :
    ∃ raw, entries.find? (fun e => match f.readKey e.1 with
      | .ok found => found = f.keyOf key
      | .error _ => false) = some (raw, w) := by
  obtain ⟨before, raw, after, hentries, hkey, hbefore⟩ := h
  refine ⟨raw, List.find?_eq_some_iff_append.2
    ⟨by simp [hkey], before, after, hentries, fun e he => ?_⟩⟩
  have hother := hbefore e he
  cases hread : f.readKey e.1 with
  | error _ => rfl
  | ok found =>
    have hne : found ≠ f.keyOf key := fun heq => hother (by rw [hread, heq])
    simpa using hne

/-- Of a record with distinct keys up front, such an entry is the first under its key, unless its
name comes again in the text form. -/
theorem exists_firstUnder {f : Form} {key : FieldKey} {w : f.Value}
    {fixed others : List (FieldKey × f.Value)} (hmem : (key, w) ∈ fixed)
    (hnodup : (fixed.map fun e => f.keyOf e.1).Nodup)
    (hfree : f = .text → ∀ e ∈ others, e.1.name ≠ key.name) :
    ∃ entries, f.members (f.record (fixed ++ others)) = .ok entries ∧
      f.FirstUnder key entries w := by
  obtain ⟨before, after, rfl⟩ := List.append_of_mem hmem
  have hbefore : ∀ e ∈ before, f.keyOf e.1 ≠ f.keyOf key := by
    intro e he heq
    rw [List.map_append, List.map_cons, List.nodup_append] at hnodup
    exact hnodup.2.2 _ (List.mem_map_of_mem he) _ List.mem_cons_self heq
  cases f with
  | binary =>
    refine ⟨_, rfl, raw .binary before, rawKey .binary key, raw .binary (after ++ others), ?_,
      readKey_rawKey .binary key, fun e he => ?_⟩
    · simp [raw, rawKey]
    · obtain ⟨d, hd, rfl⟩ := List.mem_map.1 he
      rw [readKey_rawKey .binary d.1]
      exact fun heq => hbefore d hd (Except.ok.inj heq)
  | text =>
    -- In the text form later members of other names leave this one where it is.
    have hnames : (((before ++ (key, w) :: after).map fun e => (e.1.name, e.2)).map
        (·.1)).Nodup := by
      rw [List.map_map]
      exact hnodup
    have hothers : ∀ e ∈ others.map (fun e => (e.1.name, e.2)), e.1 ≠ key.name := by
      intro e he
      obtain ⟨d, hd, rfl⟩ := List.mem_map.1 he
      exact hfree rfl d hd
    have hfound : Json.Members.find? key.name (Json.Members.ofList
        ((before ++ (key, w) :: after ++ others).map fun e => (e.1.name, e.2))) = some w := by
      rw [List.map_append, Json.Members.find?_ofList_append hothers,
        Json.Members.ofList_of_nodup hnames]
      refine Json.Members.find?_eq_some_iff_append.2
        ⟨before.map fun e => (e.1.name, e.2), after.map fun e => (e.1.name, e.2), by simp, ?_⟩
      intro e he
      obtain ⟨d, hd, rfl⟩ := List.mem_map.1 he
      exact hbefore d hd
    obtain ⟨front, rest, hmembers, hfront⟩ := Json.Members.find?_eq_some_iff_append.1 hfound
    exact ⟨_, rfl, front, key.name, rest, hmembers, rfl,
      fun e he heq => hfront e he (Except.ok.inj heq)⟩

/-! ## Sizes -/

/-- The octets of the value can be counted in 64 bits. Text is not counted. -/
def Sized : (f : Form) → f.Value → Prop
  | .binary, v => (Cbor.write v).length < UInt64.size
  | .text, _ => True

instance : (f : Form) → (v : f.Value) → Decidable (f.Sized v)
  | .binary, v => inferInstanceAs (Decidable ((Cbor.write v).length < UInt64.size))
  | .text, _ => inferInstanceAs (Decidable True)

theorem Sized.of_mem_record {f : Form} {entries : List (FieldKey × f.Value)}
    (h : f.Sized (f.record entries)) {e : FieldKey × f.Value} (he : e ∈ entries) :
    f.Sized e.2 := by
  cases f with
  | text => trivial
  | binary =>
    have hle := (Cbor.length_write_le_writeEntries
      (List.mem_map_of_mem (f := fun e => (Cbor.ofInt64 e.1.slot, e.2)) he)).2
    have hsize : (Cbor.write (.map (entries.map fun e => (Cbor.ofInt64 e.1.slot, e.2)))).length <
      UInt64.size := h
    rw [Cbor.write, List.length_append] at hsize
    exact lt_of_le_of_lt (hle.trans (Nat.le_add_left _ _)) hsize

theorem Sized.of_mem_array {f : Form} {items : List f.Value} (h : f.Sized (f.array items))
    {v : f.Value} (hv : v ∈ items) : f.Sized v := by
  cases f with
  | text => trivial
  | binary =>
    have hsize : (Cbor.write (.array items)).length < UInt64.size := h
    rw [Cbor.write, List.length_append] at hsize
    exact lt_of_le_of_lt ((Cbor.length_write_le_writeItems hv).trans (Nat.le_add_left _ _)) hsize

/-! ## Readable values -/

/-- The value nests at most a number of levels and is read back from its octets. -/
def Readable : (f : Form) → Nat → f.Value → Prop
  | .binary, d, v => Cbor.Readable d v
  | .text, d, v => Json.Readable d v

/-- The number of levels that the readers follow. -/
def maxDepth : Form → Nat
  | .binary => Cbor.maxDepth
  | .text => Json.maxDepth

theorem Readable.mono {f : Form} {d e : Nat} {v : f.Value} (h : f.Readable d v) (hle : d ≤ e) :
    f.Readable e v := by
  cases f with
  | binary => exact Cbor.Readable.mono h hle
  | text => exact Json.Readable.mono h hle

theorem Readable.array {f : Form} {d : Nat} {items : List f.Value}
    (h : ∀ v ∈ items, f.Readable d v) : f.Readable (d + 1) (f.array items) := by
  cases f with
  | binary => exact Cbor.Readable.array h
  | text => exact Json.Readable.array h

theorem readable_ofInt64 (d : Nat) (n : Int64) : Cbor.Readable d (.ofInt64 n) := by
  unfold Cbor.ofInt64
  split
  · exact .uint _
  · exact .nint _

/-- A record of readable values under distinct keys is readable. -/
theorem Readable.record {f : Form} {d : Nat} {entries : List (FieldKey × f.Value)}
    (hkeys : (entries.map fun e => f.keyOf e.1).Nodup) (h : ∀ e ∈ entries, f.Readable d e.2) :
    f.Readable (d + 1) (f.record entries) := by
  cases f with
  | binary =>
    refine Cbor.Readable.map ?_ ?_
    · intro e he
      obtain ⟨x, -, rfl⟩ := List.mem_map.1 he
      exact readable_ofInt64 d x.1.slot
    · intro e he
      obtain ⟨x, hx, rfl⟩ := List.mem_map.1 he
      exact h x hx
  | text =>
    have hnames : ((entries.map fun e => (e.1.name, e.2)).map (·.1)).Nodup := by
      rw [List.map_map]
      exact hkeys
    show Json.Readable (d + 1)
      (.object (Json.Members.ofList (entries.map fun e => (e.1.name, e.2))))
    rw [Json.Members.ofList_of_nodup hnames]
    refine Json.Readable.object hnames fun m hm => ?_
    obtain ⟨x, hx, rfl⟩ := List.mem_map.1 hm
    exact h x hx

/-- The octets of a readable value are the value. -/
theorem parse_print {f : Form} {v : f.Value} (h : f.Readable f.maxDepth v) (hsize : f.Sized v) :
    f.parse (f.print v) = .ok v := by
  cases f with
  | binary => exact Cbor.parse_write h hsize
  | text => exact Json.parse_write h

end Rim.Form
