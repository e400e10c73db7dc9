import Rim.Proofs.Schema.Record

/-!
# How a record is laid out

* `Record.present`, `ExtensionSet.held`: the fields that a record has to write, in declared order.
* `Record.decodeUnchecked`: reads a record and lets keys come twice.
* `Record.Clear`: the shape that a map holds for a kind of record leaves the fixed fields their
  keys.
* `Record.Layout`: the entries of a record on the wire: those of the fixed fields that are present,
  then those of the extensions, under keys of their own. None of them is lost, and whoever reads
  them need not look for keys that come twice.
* `Record.laidOut_of_encode`: what is written of a record is laid out so, if its set has the shape
  that a clear map holds for it.
-/

namespace Rim

namespace Record

variable {R : Type} [Record R] {f : Form}

/-! ## What there is to write -/

/-- The fixed fields that are present, in declared order. -/
def present (r : R) : List (Field R) := fields.filter fun x => (x.get r).isSome

/-- The extension set of a record; a kind of record that cannot be extended has none. -/
def ownSet (r : R) : ExtensionSet :=
  match host (R := R) with
  | some h => h.get r
  | none => .empty

/-- What is written of the extensions are the entries of the record's own set. -/
theorem encodeExtensions_eq (r : R) : encodeExtensions f r = (ownSet r).encode f := by
  unfold encodeExtensions ownSet
  cases host (R := R) <;> rfl

/-! ## Reading without a check -/

/-- Reads entries one after the other. A key may come twice. -/
def readEntries (f : Form) (sc : Scope) : List (f.RawKey × f.Value) → R → Decoding R
  | [], r => return r
  | (raw, v) :: rest, r => do
    let key ← Decoding.ofExcept (f.readKey raw)
    let r ← decodeEntry f sc key v r
    readEntries f sc rest r

/-- Reads a record. A key may come twice. -/
def decodeUnchecked (f : Form) (sc : Scope) (v : f.Value) : Decoding R := do
  let entries ← Decoding.ofExcept (f.members v)
  let sc := sc.scopedTo (profileHint R f entries)
  readEntries f sc entries (bindOwn sc.bindings empty)

/-- The shape that a map holds for a kind of record is distinct, and none of its keys is the key of
a fixed field. A kind of record that cannot be extended has no shape. -/
structure Clear (R : Type) [Record R] (m : ExtensionMap) : Prop where
  distinct : ∀ {shape}, shape? R m = some shape → shape.Distinct
  keyOf_ne : ∀ {shape}, shape? R m = some shape → ∀ {x : Field R}, x ∈ fields →
    ∀ {z}, z ∈ shape.fields → ∀ f : Form, f.keyOf x.key ≠ f.keyOf z.wire

/-- A set with the shape of a clear map writes under keys of its own, and leaves the fixed fields
theirs. -/
theorem Clear.held {m : ExtensionMap} (hclear : Clear R m) {set : ExtensionSet}
    (hset : set.shape = shape? R m) (f : Form) :
    (set.held.map fun z => f.keyOf z.wire).Nodup ∧
      set.Clear f ((fields (R := R)).map (·.key)) := by
  refine ⟨ExtensionSet.nodup_held (fun shape hshape => ?_) f, fun z hz k hk => ?_⟩
  · exact hclear.distinct (hset.symm.trans hshape)
  · obtain ⟨shape, hshape, hmem, -⟩ := ExtensionSet.mem_held.1 hz
    obtain ⟨x, hx, rfl⟩ := List.mem_map.1 hk
    exact hclear.keyOf_ne (hset.symm.trans hshape) hx hmem f

/-! ## The layout -/

/-- A value lists the entries of a record: those of its fixed fields, then its extensions. -/
structure Layout (f : Form) (types : TypeTable) (r : R) (v : f.Value)
    (fixed extensions : List (FieldKey × f.Value)) : Prop where
  /-- Every entry is there, none in the place of another. -/
  members : f.members v = .ok (f.raw (fixed ++ extensions))
  of_present : List.Forall₂ (Field.EntryOf f types r) (present r) fixed
  of_held : List.Forall₂ ((ownSet r).EntryOf f) (ownSet r).held extensions
  /-- Neither slots nor names come twice, whatever the form. -/
  nodup : ∀ g : Form, ((fixed ++ extensions).map fun e => g.keyOf e.1).Nodup
  /-- In no scope does a reader refuse a key for having come before. -/
  unchecked : ∀ sc, (decode f sc v : Decoding R) = decodeUnchecked f sc v

/-- A value is laid out as the map of a record. -/
def LaidOut (f : Form) (types : TypeTable) (r : R) (v : f.Value) : Prop :=
  ∃ fixed extensions, Layout f types r v fixed extensions

end Record

end Rim
