import Rim.Schema.Record

/-!
# Versions

* `VersionScheme`: how a version text is to be compared.
* `Version`: a version text with its scheme.
-/

namespace Rim

/-- How version texts are compared. -/
inductive VersionScheme where
  | multipartNumeric
  | multipartNumericSuffix
  | alphaNumeric
  | decimal
  | semver
  deriving DecidableEq, Repr

namespace VersionScheme

def all : List VersionScheme :=
  [.multipartNumeric, .multipartNumericSuffix, .alphaNumeric, .decimal, .semver]

def number : VersionScheme → UInt64
  | .multipartNumeric => 1
  | .multipartNumericSuffix => 2
  | .alphaNumeric => 3
  | .decimal => 4
  | .semver => 16384

def name : VersionScheme → String
  | .multipartNumeric => "multipartnumeric"
  | .multipartNumericSuffix => "multipartnumeric+suffix"
  | .alphaNumeric => "alphanumeric"
  | .decimal => "decimal"
  | .semver => "semver"

def ofNumber? (n : UInt64) : Option VersionScheme := all.find? fun s => s.number == n

def ofName? (s : String) : Option VersionScheme := all.find? fun v => v.name == s

@[simp] theorem ofNumber?_number (s : VersionScheme) : ofNumber? s.number = some s := by
  cases s <;> rfl

@[simp] theorem ofName?_name (s : VersionScheme) : ofName? s.name = some s := by
  cases s <;> decide

def ofCbor (v : Cbor) : Except DecodeError VersionScheme := do
  let n ← Cbor.expectUInt v
  match ofNumber? n with
  | some s => return s
  | none => throw (.invalidValue s!"unknown version scheme {n.toNat}")

def ofJson (v : Json) : Except DecodeError VersionScheme := do
  let name ← Json.expectString v
  match ofName? name with
  | some s => return s
  | none => throw (.invalidValue s!"unknown version scheme {Text.quote name}")

/-- Schemes are numbers in the binary form and names in the text form. -/
def coding : Coding VersionScheme where
  encode
    | .binary, s => .ok (Cbor.uint s.number)
    | .text, s => .ok (Json.string s.name)
  decode
    | .binary, v => ofCbor v
    | .text, v => ofJson v

end VersionScheme

/-- A version text with its scheme. -/
structure Version where
  value : Option String := none
  scheme : Option VersionScheme := none
  deriving DecidableEq, Repr

namespace Version

/-- The text has to be there and not to be empty. -/
def validate (v : Version) : Validation :=
  match v.value with
  | none => .error (.missing "value")
  | some text => Validation.require (text != "") (.empty "value")

def fields : List (Field Version) :=
  [.of 0 "value" Coding.text.toWire (·.value) fun s v => { v with value := some s },
   .of 1 "scheme" VersionScheme.coding.toWire (·.scheme) fun s v => { v with scheme := some s }]

instance : Record Version where
  name := "version"
  fields := fields
  empty := {}
  validate := validate

end Version

end Rim
