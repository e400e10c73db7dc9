import Rim.Binary64.Narrow
import Rim.Cbor.Basic

/-!
# Reading CBOR

* `Cbor.read`: one item from the front of an octet string, and what follows it.

Heads need not be of least width and lengths may be indefinite. Arrays, maps and tags nest up to
`maxDepth` levels. An unassigned simple value, a break outside an indefinite item, a reserved head
and text that is not UTF-8 are malformed. The tags of big numbers around short definite byte strings
are read as numbers.

A reader takes the octets that are left and returns what it read with the octets after it.
-/

namespace Rim.Cbor

/-- The number of levels that arrays, maps and tags may nest. -/
def maxDepth : Nat := 256

/-! ## Heads -/

/-- The head of an item: its major type, the low five bits of its first octet, and its argument;
an indefinite length has none. -/
structure Head where
  major : Nat
  info : Nat
  argument : Option Nat
  deriving DecidableEq, Repr

/-- The first `count` octets. -/
def take (count : Nat) (bs : Bytes) : Option (Bytes × Bytes) :=
  if count ≤ bs.length then some (bs.take count, bs.drop count) else none

/-- Reads a head. -/
def readHead : Bytes → Option (Head × Bytes)
  | [] => none
  | first :: rest =>
    let major := first.toNat / 32
    let info := first.toNat % 32
    let wide (width : Nat) : Option (Head × Bytes) := do
      let (argument, rest) ← take width rest
      return (⟨major, info, some (Bytes.toNat argument)⟩, rest)
    if info < 24 then some (⟨major, info, some info⟩, rest)
    else if info = 24 then wide 1
    else if info = 25 then wide 2
    else if info = 26 then wide 4
    else if info = 27 then wide 8
    else if info = 31 then some (⟨major, info, none⟩, rest)
    else none

/-! ## Repetition -/

/-- Exactly `count` things. -/
def exactly {α : Type} (read : Bytes → Option (α × Bytes)) :
    (count : Nat) → Bytes → Option (List α × Bytes)
  | 0, bs => some ([], bs)
  | count + 1, bs => do
    let (x, bs) ← read bs
    let (xs, bs) ← exactly read count bs
    return (x :: xs, bs)

/-- Things up to a break. At most `fuel` octets of input are gone through, one for each thing. -/
def untilBreak {α : Type} (read : Bytes → Option (α × Bytes)) :
    (fuel : Nat) → Bytes → Option (List α × Bytes)
  | 0, _ => none
  | _ + 1, 0xff :: rest => some ([], rest)
  | fuel + 1, bs => do
    let (x, bs) ← read bs
    let (xs, bs) ← untilBreak read fuel bs
    return (x :: xs, bs)

/-- As many things as the argument of a head tells. -/
def repeated {α : Type} (read : Bytes → Option (α × Bytes)) (count : Option Nat) (bs : Bytes) :
    Option (List α × Bytes) :=
  match count with
  | some n => exactly read n bs
  | none => untilBreak read bs.length bs

/-- Two things. -/
def pair {α : Type} (read : Bytes → Option (α × Bytes)) (bs : Bytes) :
    Option ((α × α) × Bytes) := do
  let (k, bs) ← read bs
  let (v, bs) ← read bs
  return ((k, v), bs)

/-! ## Strings -/

/-- The definite segments of an indefinite string of the given major type. `nested` counts the
indefinite segments that are open inside it. -/
def segments (major : Nat) : (fuel nested : Nat) → Bytes → Option (List Bytes × Bytes)
  | 0, _, _ => none
  | _ + 1, 0, 0xff :: rest => some ([], rest)
  | fuel + 1, nested + 1, 0xff :: rest => segments major fuel nested rest
  | fuel + 1, nested, bs => do
    let (h, bs) ← readHead bs
    if h.major ≠ major then none
    else match h.argument with
      | none => segments major fuel (nested + 1) bs
      | some n =>
        let (segment, bs) ← take n bs
        let (others, bs) ← segments major fuel nested bs
        return (segment :: others, bs)

/-- The segments of a string: one if its length is definite. -/
def stringSegments (major : Nat) (length : Option Nat) (bs : Bytes) :
    Option (List Bytes × Bytes) :=
  match length with
  | some n => do
    let (segment, bs) ← take n bs
    return ([segment], bs)
  | none => segments major bs.length 0 bs

/-- Text whose every segment is UTF-8. -/
def textOfSegments (parts : List Bytes) : Option String :=
  (parts.mapM Bytes.toString?).map String.join

/-! ## Items -/

/-- The number of a big-number tag around its octets; `none` for one below `-2 ^ 127`. A number
of more than 64 bits stays tagged, without leading zeros. -/
def bigNumber (negative : Bool) (bs : Bytes) : Option Cbor :=
  let n := Bytes.toNat bs
  if negative then
    if n < UInt64.size then some (.nint (UInt64.ofNat n))
    else if n < 1 <<< 127 then some (.tag 3 (.bytes (Bytes.minimal bs)))
    else none
  else if n < UInt64.size then some (.uint (UInt64.ofNat n))
  else some (.tag 2 (.bytes (Bytes.minimal bs)))

/-- The octets of a big number: a definite byte string of at most sixteen octets under tag 2
or 3. The outer option tells whether there is one, the inner whether it can be read. -/
def bigNumber? (number : Nat) (bs : Bytes) : Option (Option (Cbor × Bytes)) :=
  if number = 2 ∨ number = 3 then
    match readHead bs with
    | some (⟨2, _, some n⟩, rest) =>
      if n ≤ 16 then
        some do
          let (content, rest) ← take n rest
          let v ← bigNumber (number = 3) content
          return (v, rest)
      else none
    | _ => none
  else none

/-- Items of major type 7: floating-point numbers and simple values. -/
def simple (info : Nat) (argument : Nat) : Option Cbor :=
  if info = 25 then some (.float (Binary64.half.widen argument))
  else if info = 26 then some (.float (Binary64.single.widen argument))
  else if info = 27 then some (.float ⟨UInt64.ofNat argument⟩)
  else match argument with
    | 20 => some (.bool false)
    | 21 => some (.bool true)
    | 22 => some .null
    | 23 => some .null
    | _ => none

/-- Reads an item, given the reader of the items nested in it; without one it may hold none. -/
def readWith (nested : Option (Bytes → Option (Cbor × Bytes))) (bs : Bytes) :
    Option (Cbor × Bytes) := do
  let (h, bs) ← readHead bs
  match h.major, h.argument with
  | 0, some n => return (.uint (UInt64.ofNat n), bs)
  | 1, some n => return (.nint (UInt64.ofNat n), bs)
  | 2, length => do
    let (parts, bs) ← stringSegments 2 length bs
    return (.bytes parts.flatten, bs)
  | 3, length => do
    let (parts, bs) ← stringSegments 3 length bs
    let s ← textOfSegments parts
    return (.text s, bs)
  | 4, count => do
    let read ← nested
    let (items, bs) ← repeated read count bs
    return (.array items, bs)
  | 5, count => do
    let read ← nested
    let (entries, bs) ← repeated (pair read) count bs
    return (.map entries, bs)
  | 6, some number =>
    -- A number nests nothing, so it may stand where no more levels are left.
    match bigNumber? number bs with
    | some result => result
    | none => do
      let read ← nested
      let (content, bs) ← read bs
      return (.tag (UInt64.ofNat number) content, bs)
  | 7, some argument => do
    let v ← simple h.info argument
    return (v, bs)
  | _, _ => none

/-- Reads an item that nests at most `depth` levels. -/
def readItem : (depth : Nat) → Bytes → Option (Cbor × Bytes)
  | 0 => readWith none
  | depth + 1 => readWith (some (readItem depth))

/-- Reads one item from the front. -/
def read (bs : Bytes) : Option (Cbor × Bytes) := readItem maxDepth bs

end Rim.Cbor
