import Rim.Cbor.Description
import Rim.Cbor.Reader
import Rim.Wire.Error

/-!
# Reading values out of CBOR items

* `Cbor.parse`: the one item of an octet string.
* `Cbor.expectText` and its siblings: the content of an item of one kind; an item of any other kind
  is an error that describes it.
-/

namespace Rim.Cbor

/-- The one item of an octet string. Nothing may follow it. -/
def parse (bs : Bytes) : Except DecodeError Cbor :=
  if bs.isEmpty then .error .emptyInput
  else match read bs with
    | none => .error (.malformed .binary)
    | some (v, rest) => if rest.isEmpty then .ok v else .error (.trailingData rest.length)

/-- An item of another kind than expected. -/
def unexpected {α : Type} (expected : String) (v : Cbor) : Except DecodeError α :=
  .error (.unexpected expected v.describe)

def expectText : Cbor → Except DecodeError String
  | .text s => .ok s
  | v => unexpected "text string" v

def expectBytes : Cbor → Except DecodeError Bytes
  | .bytes bs => .ok bs
  | v => unexpected "byte string" v

/-- An integer from zero on. -/
def expectUInt : Cbor → Except DecodeError UInt64
  | .uint n => .ok n
  | .nint _ => .error (.invalidValue "negative integer")
  | v => unexpected "unsigned integer" v

/-- An integer of 63 bits and a sign. -/
def expectInt : Cbor → Except DecodeError Int64
  | .uint n =>
    if n < 0x8000000000000000 then .ok (Int64.ofNat n.toNat)
    else .error (.invalidValue "integer out of range")
  | .nint n =>
    if n < 0x8000000000000000 then .ok (Int64.ofInt (-1 - n.toNat))
    else .error (.invalidValue "integer out of range")
  | v => unexpected "integer" v

def expectBool : Cbor → Except DecodeError Bool
  | .bool b => .ok b
  | v => unexpected "bool" v

def expectArray : Cbor → Except DecodeError (List Cbor)
  | .array items => .ok items
  | v => unexpected "array" v

def expectMap : Cbor → Except DecodeError (List (Cbor × Cbor))
  | .map entries => .ok entries
  | v => unexpected "map" v

/-- The content of an item with the given tag. -/
def expectTag (number : UInt64) : Cbor → Except DecodeError Cbor
  | .tag found content =>
    if found = number then .ok content
    else .error (.invalidValue s!"expected tag {number.toNat}, found tag {found.toNat}")
  | v => unexpected "tagged item" v

end Rim.Cbor
