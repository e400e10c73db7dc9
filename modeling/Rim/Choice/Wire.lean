import Rim.Choice.Table

/-!
# Type choices on the wire

* `Choice.encode`, `Choice.decode`: values of a family in both forms.
* `Choice.build`, `Choice.plain`: values from seeds and plain texts.
* `Choice.assertBuilt`, `Choice.assertPlain`: the same for texts that are known to be good; a
  failure is fatal and has a text of its own.

In the binary form a bare text or byte string selects the variant with that discriminator, and a
tag selects the one with its number. In the text form a string is the bare-text variant and an
envelope names the type tag; the payload of an envelope is validated at once.
-/

namespace Rim.Choice

/-! ## Building -/

/-- The value of a seed under a type tag. -/
def build (types : TypeTable) (family : Family) (typeTag : String) (seed : Option Seed) :
    Except ChoiceError ChoiceValue := do
  let v ← types.resolveTypeTag family typeTag
  v.factory.build seed

/-- The plain string; it must not be empty. -/
def plain (s : String) : Except ValidationError ChoiceValue := do
  (ChoiceValue.text s).validate
  return .text s

/-- A broken promise that a value could be built, by its text. -/
structure Fatal where
  message : String
  deriving DecidableEq, Repr

/-- `build` for a seed that is known to be good. -/
def assertBuilt (types : TypeTable) (family : Family) (typeTag : String) (seed : Option Seed) :
    Except Fatal ChoiceValue :=
  (build types family typeTag seed).mapError fun e => ⟨s!"{family.name} {typeTag}: {e.message}"⟩

/-- `plain` for a text that is known to be good. -/
def assertPlain (family : Family) (s : String) : Except Fatal ChoiceValue :=
  (plain s).mapError fun e => ⟨s!"{family.name}: {e.message}"⟩

/-! ## Writing -/

/-- The variant under which a value is written. -/
def registered (types : TypeTable) (family : Family) (value : ChoiceValue) :
    Except EncodingError Variant :=
  match types.byTypeTag? family value.typeTag with
  | some v => .ok v
  | none => .error (.unregisteredVariant family value.typeTag)

/-- The item of a payload under a discriminator; a bare discriminator asks for a payload of its
kind. -/
def encodePayload (typeTag : String) : Discriminator → Cbor → Except EncodingError Cbor
  | .bareText, .text s => .ok (.text s)
  | .bareBytes, .bytes bs => .ok (.bytes bs)
  | .tag number, payload => .ok (.tag number payload)
  | discriminator, _ =>
    .error (.value s!"{typeTag} payload does not match discriminator {discriminator.describe}")

def encodeCbor (types : TypeTable) (family : Family) (value : ChoiceValue) :
    Except EncodingError Cbor := do
  value.validate.mapError .invalid
  let v ← registered types family value
  let payload ← value.toCbor
  encodePayload value.typeTag v.discriminator payload

def encodeJson (types : TypeTable) (family : Family) (value : ChoiceValue) :
    Except EncodingError Json := do
  value.validate.mapError .invalid
  let v ← registered types family value
  let payload ← value.toJson
  if v.discriminator = .bareText then return payload
  return Json.Envelope.toJson ⟨v.typeTag, payload⟩

/-- A valid value of the family in a form. -/
def encode (types : TypeTable) (family : Family) : (f : Form) → ChoiceValue →
    Except EncodingError f.Value
  | .binary, value => encodeCbor types family value
  | .text, value => encodeJson types family value

/-! ## Reading -/

/-- The discriminator of an item, and its payload. -/
def discriminate : Cbor → Except DecodeError (Discriminator × Cbor)
  | .text s => .ok (.bareText, .text s)
  | .bytes bs => .ok (.bareBytes, .bytes bs)
  | .tag number content => .ok (.tag number, content)
  | v => Cbor.unexpected "type-choice item" v

/-- The variant of a discriminator. -/
def variantOf (types : TypeTable) (family : Family) (discriminator : Discriminator) :
    Except DecodeError Variant :=
  match types.byDiscriminator? family discriminator with
  | some v => .ok v
  | none => .error (.unknownVariant family discriminator.describe)

/-- The zero value of a variant, with its payload set by `set`. -/
def fill (v : Variant) (set : ChoiceValue → Except DecodeError ChoiceValue) :
    Except DecodeError ChoiceValue := do
  let zero ← (v.factory.build none).mapError .choice
  (set zero).mapError (.variant v.family v.typeTag)

def decodeCbor (types : TypeTable) (family : Family) (item : Cbor) :
    Except DecodeError ChoiceValue := do
  let (discriminator, payload) ← discriminate item
  let v ← variantOf types family discriminator
  fill v (·.setCbor payload)

/-- The value of an envelope. -/
def decodeEnvelope (types : TypeTable) (family : Family) (e : Json.Envelope) :
    Except DecodeError ChoiceValue := do
  match types.byTypeTag? family e.typeTag with
  | none => throw (.unknownVariant family e.typeTag)
  | some v =>
    let value ← fill v (·.setJson e.value)
    value.validate.mapError (.invalidVariant v.typeTag)
    return value

def decodeJson (types : TypeTable) (family : Family) (v : Json) : Except DecodeError ChoiceValue :=
  match v with
  | .string s => do
    let variant ← variantOf types family .bareText
    fill variant (·.setJson (.string s))
  | v => do decodeEnvelope types family (← Json.Envelope.ofJson v)

/-- A value of the family from a form. -/
def decode (types : TypeTable) (family : Family) : (f : Form) → f.Value →
    Except DecodeError ChoiceValue
  | .binary, v => decodeCbor types family v
  | .text, v => decodeJson types family v

end Rim.Choice
