import Rim.Record.Environment
import Rim.Record.Mval

/-!
# Triples

* `ValueTriple`: an environment and what has been measured in it; a pair in the binary form, an
  object in the text form.
* `Triples`: the reference values and the endorsed values of a tag.
-/

namespace Rim

/-- An environment and what has been measured in it. -/
structure ValueTriple where
  environment : Environment := {}
  measurements : List Measurement := []
  deriving BEq

namespace ValueTriple

def validate (t : ValueTriple) : Validation := do
  Validation.require (!t.measurements.isEmpty) (.missing "measurements")
  Validation.field "environment" t.environment.validate
  Validation.list "measurements" Measurement.validate t.measurements

/-- Reads the two parts, each with its name in front of an error. -/
def decodeParts (f : Form) (sc : Scope) (environment measurements : f.Value) :
    Decoding ValueTriple := do
  let e ← (Record.decode f sc environment).mapError (.field "environment")
  let ms ← ((Wire.list (Record.wire Measurement)).decode f sc measurements).mapError
    (.field "measurements")
  return { environment := e, measurements := ms }

/-- The two parts of a binary triple. -/
def partsOfCbor (v : Cbor) : Except DecodeError (Cbor × Cbor) := do
  match ← Cbor.expectArray v with
  | [e, ms] => return (e, ms)
  | _ => throw (.invalidValue "value triple must be [environment, measurements]")

/-- The two members of a text triple. Other members are not looked at. -/
def partsOfJson (v : Json) : Except DecodeError (Json × Json) := do
  let members ← Json.expectObject v
  match members.remove? "environment" with
  | none => throw (.invalidValue "value triple without environment")
  | some (e, members) =>
    match members.remove? "measurements" with
    | none => throw (.invalidValue "value triple without measurements")
    | some (ms, _) => return (e, ms)

/-- The two parts in a form. -/
def encodeParts (f : Form) (types : TypeTable) (t : ValueTriple) :
    Except EncodingError (f.Value × f.Value) := do
  let e ← (Record.wire Environment).encode f types t.environment
  let ms ← (Wire.list (Record.wire Measurement)).encode f types t.measurements
  return (e, ms)

def wire : Wire ValueTriple where
  encode
    | .binary, types, t => do
      let (e, ms) ← encodeParts .binary types t
      return Cbor.array [e, ms]
    | .text, types, t => do
      let (e, ms) ← encodeParts .text types t
      return Json.object [("environment", e), ("measurements", ms)]
  decode
    | .binary, sc, v => do
      let (e, ms) ← Decoding.ofExcept (partsOfCbor v)
      decodeParts .binary sc e ms
    | .text, sc, v => do
      let (e, ms) ← Decoding.ofExcept (partsOfJson v)
      decodeParts .text sc e ms

instance : Extensible ValueTriple where
  bind map t :=
    { environment := Extensible.bind map t.environment
      measurements := t.measurements.map (Extensible.bind map) }

end ValueTriple

/-- The triples of a tag. -/
structure Triples where
  referenceValues : List ValueTriple := []
  endorsedValues : List ValueTriple := []
  extensions : ExtensionSet := .empty
  deriving BEq

namespace Triples

/-- Neither a triple nor an extension. -/
def isEmpty (t : Triples) : Bool :=
  t.referenceValues.isEmpty && t.endorsedValues.isEmpty && t.extensions.isEmpty

def validate (t : Triples) : Validation := do
  Validation.require (!t.isEmpty) (.invalid "no triples")
  Validation.list "reference-values" ValueTriple.validate t.referenceValues
  Validation.list "endorsed-values" ValueTriple.validate t.endorsedValues
  t.extensions.validate

def addReferenceValue (t : Triples) (v : ValueTriple) : Triples :=
  { t with referenceValues := t.referenceValues ++ [v] }

def addEndorsedValue (t : Triples) (v : ValueTriple) : Triples :=
  { t with endorsedValues := t.endorsedValues ++ [v] }

/-- Lists of triples. -/
def listWire : Wire (List ValueTriple) := Wire.list ValueTriple.wire

def fields : List (Field Triples) :=
  [.of 0 "reference-values" listWire (fun t => present? t.referenceValues)
     fun vs t => { t with referenceValues := vs },
   .of 1 "endorsed-values" listWire (fun t => present? t.endorsedValues)
     fun vs t => { t with endorsedValues := vs }]

/-- All fields are lists of triples, and a value is read as one whatever its key. -/
instance : Record Triples where
  name := "triples"
  fields := fields
  empty := {}
  validate := validate
  host := some ⟨"triples", (·.extensions), fun set t => { t with extensions := set }⟩
  readStray f sc v := do
    let _ ← listWire.decode f sc v
    return ()

instance : Extensible Triples where
  bind map t :=
    let t := Record.bindOwn map t
    { t with
      referenceValues := t.referenceValues.map (Extensible.bind map)
      endorsedValues := t.endorsedValues.map (Extensible.bind map) }

end Triples

namespace ExtensionPoint

/-- The triples of tags. -/
def triples : ExtensionPoint := .own "triples" (Triples.fields.map (·.key))

end ExtensionPoint

end Rim
