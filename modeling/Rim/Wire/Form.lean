import Rim.Cbor.Expect
import Rim.Cbor.Writer
import Rim.Json.Expect
import Rim.Json.Writer

/-!
# The two wire forms

What records need of a form, so that they are described once for both.

* `FieldKey`: the key of a field: an integer in the binary form, a name in the text form.
* `Form.Value`, `Form.Key`: the values of a form and the keys of its records.
* `Form.record`, `Form.members`, `Form.array`, `Form.elements`: composite values and their parts.
* `Form.parse`, `Form.print`: values and octets.
-/

namespace Rim

/-- The key of a field in both forms. -/
structure FieldKey where
  /-- The key in the binary form. -/
  slot : Int64
  /-- The member name in the text form. -/
  name : String
  deriving DecidableEq, Repr

namespace Form

/-- The values of a form. -/
abbrev Value : Form → Type
  | .binary => Cbor
  | .text => Json

/-- What stands in the place of a key. -/
abbrev RawKey : Form → Type
  | .binary => Cbor
  | .text => String

/-- The keys of records. -/
abbrev Key : Form → Type
  | .binary => Int64
  | .text => String

instance : (f : Form) → DecidableEq f.Key
  | .binary => inferInstanceAs (DecidableEq Int64)
  | .text => inferInstanceAs (DecidableEq String)

/-- The key of a field in the form. -/
def keyOf : (f : Form) → FieldKey → f.Key
  | .binary, k => k.slot
  | .text, k => k.name

/-- The text of a key in messages. -/
def keyText : (f : Form) → f.Key → String
  | .binary, (k : Int64) => toString k.toInt
  | .text, (k : String) => k

/-! ## Reading -/

/-- The key in the place of one. -/
def readKey : (f : Form) → f.RawKey → Except DecodeError f.Key
  | .binary, k => Cbor.expectInt k
  | .text, k => .ok k

/-- The entries of a record. -/
def members : (f : Form) → f.Value → Except DecodeError (List (f.RawKey × f.Value))
  | .binary, v => Cbor.expectMap v
  | .text, v => Json.expectObject v

/-- The elements of a list. -/
def elements : (f : Form) → f.Value → Except DecodeError (List f.Value)
  | .binary, v => Cbor.expectArray v
  | .text, v => Json.expectArray v

/-- The value of an octet string. -/
def parse : (f : Form) → Bytes → Except DecodeError f.Value
  | .binary, bs => Cbor.parse bs
  | .text, bs => Json.parse bs

/-! ## Writing -/

/-- A record of the given entries. In the text form a second entry of a name takes the place of the
first. -/
def record : (f : Form) → List (FieldKey × f.Value) → f.Value
  | .binary, entries => Cbor.map (entries.map fun (k, v) => (Cbor.ofInt64 k.slot, v))
  | .text, entries => Json.object (Json.Members.ofList (entries.map fun (k, v) => (k.name, v)))

/-- A list of values. -/
def array : (f : Form) → List f.Value → f.Value
  | .binary, items => Cbor.array items
  | .text, items => Json.array items

/-- The octets of a value. -/
def print : (f : Form) → f.Value → Bytes
  | .binary, v => Cbor.write v
  | .text, v => Json.write v

@[simp] theorem elements_array (f : Form) (items : List f.Value) :
    f.elements (f.array items) = .ok items := by
  cases f <;> rfl

end Form

end Rim
