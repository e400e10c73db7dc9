import Rim.Record.Version

/-!
# Measurement values

* `Svn`: a security version number, exact or as a lower bound.
* `Mval`: what has been measured of one thing.
* `Measurement`: the place of a measurement value.
-/

namespace Rim

/-- A security version number. -/
inductive Svn where
  | exact (n : UInt64)
  /-- A lower bound. -/
  | min (n : UInt64)
  deriving DecidableEq, Repr

namespace Svn

/-- A bare integer is an exact number. -/
def ofCbor (v : Cbor) : Except DecodeError Svn := do
  match v with
  | .uint _ => return .exact (← Cbor.expectUInt v)
  | .nint _ => return .exact (← Cbor.expectUInt v)
  | .tag number content =>
    if number = TagNumber.svnExact then return .exact (← Cbor.expectUInt content)
    else if number = TagNumber.svnMin then return .min (← Cbor.expectUInt content)
    else Cbor.unexpected "svn" v
  | v => Cbor.unexpected "svn" v

/-- The number is read before the type is looked at. -/
def ofJson (v : Json) : Except DecodeError Svn := do
  let e ← Json.Envelope.ofJson v
  let n ← Json.expectUInt e.value
  if e.typeTag = "exact-value" then return .exact n
  else if e.typeTag = "min-value" then return .min n
  else throw (.invalidValue s!"unknown svn type {Text.quote e.typeTag}")

/-- Tagged integers in the binary form, envelopes in the text form. -/
def coding : Coding Svn where
  encode
    | .binary, .exact n => .ok (Cbor.tag TagNumber.svnExact (.uint n))
    | .binary, .min n => .ok (Cbor.tag TagNumber.svnMin (.uint n))
    | .text, .exact n => .ok (Json.Envelope.toJson ⟨"exact-value", .number (.ofUInt64 n)⟩)
    | .text, .min n => .ok (Json.Envelope.toJson ⟨"min-value", .number (.ofUInt64 n)⟩)
  decode
    | .binary, v => ofCbor v
    | .text, v => ofJson v

end Svn

/-- A measurement value. -/
structure Mval where
  version : Option Version := none
  svn : Option Svn := none
  digests : Option Digests := none
  serialNumber : Option String := none
  name : Option String := none
  extensions : ExtensionSet := .empty
  deriving BEq

namespace Mval

/-- Whether a fixed field is present. -/
def hasField (m : Mval) : Bool :=
  m.version.isSome || m.svn.isSome || m.digests.isSome || m.serialNumber.isSome || m.name.isSome

/-- Something has to be present, and whatever is has to be valid. -/
def validate (m : Mval) : Validation := do
  Validation.require (m.hasField || !m.extensions.isEmpty) (.invalid "no measurement value set")
  Validation.optional "version" Version.validate m.version
  Validation.optional "digests" Digests.validate m.digests
  Validation.nonEmpty "serial-number" m.serialNumber
  Validation.nonEmpty "name" m.name
  m.extensions.validate

def fields : List (Field Mval) :=
  [.of 0 "version" (Record.wire Version) (·.version) fun v m => { m with version := some v },
   .of 1 "svn" Svn.coding.toWire (·.svn) fun n m => { m with svn := some n },
   .of 2 "digests" Digests.coding.toWire (·.digests) fun ds m => { m with digests := some ds },
   .of 8 "serial-number" Coding.text.toWire (·.serialNumber)
     fun s m => { m with serialNumber := some s },
   .of 11 "name" Coding.text.toWire (·.name) fun s m => { m with name := some s }]

instance : Record Mval where
  name := "measurement value"
  fields := fields
  empty := {}
  validate := validate
  host := some ⟨"mval", (·.extensions), fun set m => { m with extensions := set }⟩

instance : Extensible Mval := ⟨Record.bindOwn⟩

end Mval

namespace ExtensionPoint

/-- The measurement values. -/
def mval : ExtensionPoint := .own "mval" (Mval.fields.map (·.key))

/-- The measurement values, wherever they are declared. -/
def referenceValue : ExtensionPoint := .synonym "reference-value" mval

def endorsedValue : ExtensionPoint := .synonym "endorsed-value" mval

end ExtensionPoint

/-- The place of a measurement value. -/
structure Measurement where
  value : Option Mval := none
  deriving BEq

namespace Measurement

def validate (m : Measurement) : Validation := Validation.mandatory "value" Mval.validate m.value

def fields : List (Field Measurement) :=
  [.of 1 "value" (Record.wire Mval) (·.value) fun v m => { m with value := some v }]

instance : Record Measurement where
  name := "measurement"
  fields := fields
  empty := {}
  validate := validate

instance : Extensible Measurement where
  bind map m := { m with value := m.value.map (Extensible.bind map) }

end Measurement

end Rim
