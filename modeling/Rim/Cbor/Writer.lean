import Rim.Binary64.Narrow
import Rim.Cbor.Basic

/-!
# Writing CBOR

* `Cbor.write`: the octets of an item, in its shortest form: heads of least width, definite
  lengths, and floating-point numbers in the shortest format that keeps their bits.
-/

namespace Rim.Cbor

/-- The head of an item: its major type and its argument in the least width. -/
def head (major : Nat) (argument : Nat) : Bytes :=
  let first (info : Nat) : UInt8 := UInt8.ofNat (32 * major + info)
  if argument < 24 then [first argument]
  else if argument < UInt8.size then first 24 :: Bytes.bigEndian 1 argument
  else if argument < UInt16.size then first 25 :: Bytes.bigEndian 2 argument
  else if argument < UInt32.size then first 26 :: Bytes.bigEndian 4 argument
  else first 27 :: Bytes.bigEndian 8 argument

/-- The octets of a floating-point number, in the shortest format that keeps every bit of it. -/
def writeFloat (x : Binary64) : Bytes :=
  match Binary64.half.narrow? x, Binary64.single.narrow? x with
  | some pattern, _ => 0xf9 :: Bytes.bigEndian 2 pattern
  | none, some pattern => 0xfa :: Bytes.bigEndian 4 pattern
  | none, none => 0xfb :: Bytes.bigEndian 8 x.bits.toNat

mutual

/-- The octets of an item. -/
def write : Cbor → Bytes
  | .uint n => head 0 n.toNat
  | .nint n => head 1 n.toNat
  | .bytes bs => head 2 bs.length ++ bs
  | .text s => head 3 (Bytes.ofString s).length ++ Bytes.ofString s
  | .array items => head 4 items.length ++ writeItems items
  | .map entries => head 5 entries.length ++ writeEntries entries
  | .tag number content => head 6 number.toNat ++ write content
  | .bool false => [0xf4]
  | .bool true => [0xf5]
  | .null => [0xf6]
  | .float x => writeFloat x

/-- The octets of the items of an array. -/
def writeItems : List Cbor → Bytes
  | [] => []
  | v :: rest => write v ++ writeItems rest

/-- The octets of the entries of a map. -/
def writeEntries : List (Cbor × Cbor) → Bytes
  | [] => []
  | (k, v) :: rest => write k ++ write v ++ writeEntries rest

end

end Rim.Cbor
