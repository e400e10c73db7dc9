import Rim.Json.Description
import Rim.Json.Reader
import Rim.Wire.Error

/-!
# Reading values out of JSON values

* `Json.parse`: the value of an octet string.
* `Json.expectString` and its siblings: the content of a value of one kind; a value of any other
  kind is an error that describes it.
* `Json.Envelope`: an object with the members `type` and `value`, in which tagged values travel.
-/

namespace Rim.Json

/-- The value of an octet string. -/
def parse (bs : Bytes) : Except DecodeError Json :=
  match read? bs with
  | some v => .ok v
  | none => .error (.malformed .text)

/-- A value of another kind than expected. -/
def unexpected {α : Type} (expected : String) (v : Json) : Except DecodeError α :=
  .error (.unexpected expected v.describe)

def expectString : Json → Except DecodeError String
  | .string s => .ok s
  | v => unexpected "string" v

/-- An integer from zero on. -/
def expectUInt : Json → Except DecodeError UInt64
  | .number n => match n.toUInt64? with
    | some k => .ok k
    | none => .error (.invalidValue s!"{n.render} is not an unsigned integer")
  | v => unexpected "unsigned integer" v

/-- An integer of 63 bits and a sign. -/
def expectInt : Json → Except DecodeError Int64
  | .number n => match n.toInt64? with
    | some k => .ok k
    | none => .error (.invalidValue s!"{n.render} is not an integer")
  | v => unexpected "integer" v

def expectBool : Json → Except DecodeError Bool
  | .bool b => .ok b
  | v => unexpected "bool" v

def expectArray : Json → Except DecodeError (List Json)
  | .array items => .ok items
  | v => unexpected "array" v

def expectObject : Json → Except DecodeError Members
  | .object members => .ok members
  | v => unexpected "object" v

/-! ## Envelopes -/

/-- A value with the type tag that tells how to read it. -/
structure Envelope where
  typeTag : String
  value : Json

namespace Envelope

/-- The object of an envelope. -/
def toJson (e : Envelope) : Json :=
  .object [("type", .string e.typeTag), ("value", e.value)]

/-- Reads an envelope. Both members are taken out of the object; of other members the first left
over is reported. -/
def ofJson (v : Json) : Except DecodeError Envelope := do
  let members ← expectObject v
  match members.remove? "type" with
  | none => throw (.invalidValue "envelope without \"type\"")
  | some (tag, members) =>
    let typeTag ← expectString tag
    match members.remove? "value" with
    | none => throw (.invalidValue "envelope without \"value\"")
    | some (value, []) => return { typeTag, value }
    | some (_, (name, _) :: _) =>
      throw (.invalidValue s!"unexpected envelope member {Text.quote name}")

@[simp] theorem ofJson_toJson (e : Envelope) : ofJson e.toJson = .ok e := by
  simp [ofJson, toJson, expectObject, expectString, Members.remove?, bind, Except.bind, pure,
    Except.pure]

end Envelope

end Rim.Json
