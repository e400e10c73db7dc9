import Rim.Choice.Value

/-!
# Building values

* `Factory`: builds the values of a variant from seeds; without a seed it builds the zero value.
* `Factory.text`, `Factory.oid`, `Factory.uuid`, `Factory.bytes`: the variants of the base schema.
-/

namespace Rim

/-- What builds the values of a variant. -/
structure Factory where
  /-- The value of a seed; without one, the zero value. -/
  build : Option Seed → Except ChoiceError ChoiceValue
  /-- The zero value at the time of registration, from which the type tag is learned. A factory
  whose answers depend on nothing but the seed gives its zero value here. -/
  probe : Except ChoiceError ChoiceValue := build none

namespace Factory

/-- A factory whose answers depend on the seed alone. -/
def IsPure (f : Factory) : Prop := f.probe = f.build none

/-- Plain strings: from text, or from octets that are UTF-8. -/
def text : Factory where
  build
    | none => .ok (.text "")
    | some (.text s) => .ok (.text s)
    | some (.bytes bs) => match Bytes.toString? bs with
      | some s => .ok (.text s)
      | none => .error (.invalidSeed "string" "bytes do not form a valid UTF-8 string")
    | some (.uint n) => .error (.unexpectedSeed "string" (Seed.uint n).kind)

/-- The identifier of a dotted text, in canonical spelling. -/
def oidOfText (dotted : String) : Except ChoiceError ChoiceValue :=
  match Oid.canonical dotted with
  | .ok s => .ok (.oid s)
  | .error e => .error (.invalidSeed "oid" e.message)

/-- Object identifiers: from dotted text or from content octets. -/
def oid : Factory where
  build
    | none => .ok (.oid "")
    | some (.text s) => oidOfText s
    | some (.bytes bs) => match Oid.ofBer bs with
      | .ok s => .ok (.oid s)
      | .error e => .error (.invalidSeed "oid" e.message)
    | some (.uint n) => .error (.unexpectedSeed "oid" (Seed.uint n).kind)

/-- The value of a UUID that may not have been read. -/
def ofUuid : Except Uuid.Error Uuid → Except ChoiceError ChoiceValue
  | .ok u => .ok (.uuid u)
  | .error e => .error (.invalidSeed "uuid" e.message)

/-- UUIDs: from text or from sixteen octets. -/
def uuid : Factory where
  build
    | none => .ok (.uuid Uuid.nil)
    | some (.text s) => ofUuid (Uuid.parse s)
    | some (.bytes bs) => ofUuid (Uuid.ofBytes bs)
    | some (.uint n) => .error (.unexpectedSeed "uuid" (Seed.uint n).kind)

/-- Opaque octets: as they are, or from hexadecimal text. -/
def bytes : Factory where
  build
    | none => .ok (.bytes [])
    | some (.text s) => match Hex.decode s with
      | .ok bs => .ok (.bytes bs)
      | .error e => .error (.invalidSeed "bytes" e.message)
    | some (.bytes bs) => .ok (.bytes bs)
    | some (.uint n) => .error (.unexpectedSeed "bytes" (Seed.uint n).kind)

end Factory

end Rim
