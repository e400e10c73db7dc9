import Rim.Choice.Basic
import Rim.Oid
import Rim.Uuid
import Rim.Wire.Coding

/-!
# Values of type choices

* `ChoiceValue`: the variants of the base schema, and variants declared elsewhere.
* `CustomVariant`: what a variant declared elsewhere has to tell about itself.
* `ChoiceValue.toCbor`, `ChoiceValue.setCbor` and the same for JSON: the payload of a value.
* `ChoiceValue.same`: equality of data: one type tag and one binary payload.
-/

namespace Rim

/-- A variant outside the base schema. The content of its values is held as an item, on which the
variant's operations work. -/
structure CustomVariant where
  typeTag : String
  display : Cbor → String
  validate : Cbor → Validation
  toCbor : Cbor → Except EncodingError Cbor
  /-- The content after a binary payload has been set; the first argument is the content before. -/
  setCbor : Cbor → Cbor → Except DecodeError Cbor
  toJson : Cbor → Except EncodingError Json
  /-- The content after a text payload has been set. -/
  setJson : Cbor → Json → Except DecodeError Cbor

/-- A value of a type choice. -/
inductive ChoiceValue where
  /-- The plain string. -/
  | text (s : String)
  /-- An object identifier in dotted text; the empty text stands for none. -/
  | oid (dotted : String)
  | uuid (u : Uuid)
  /-- Opaque octets. -/
  | bytes (bs : Bytes)
  | custom (variant : CustomVariant) (content : Cbor)

namespace ChoiceValue

/-- The type tag of the value's variant. -/
def typeTag : ChoiceValue → String
  | .text _ => "string"
  | .oid _ => "oid"
  | .uuid _ => "uuid"
  | .bytes _ => "bytes"
  | .custom variant _ => variant.typeTag

/-- The canonical text of a value. -/
def display : ChoiceValue → String
  | .text s => s
  | .oid dotted => dotted
  | .uuid u => u.toString
  | .bytes bs => Hex.encode bs
  | .custom variant content => variant.display content

/-- Values of the base schema must not be empty. -/
def validate : ChoiceValue → Validation
  | .text s => Validation.require (s != "") (.empty "string")
  | .oid dotted =>
    if dotted = "" then .error (.empty "OID")
    else match Oid.toBer dotted with
      | .ok _ => .ok ()
      | .error e => .error (.invalid e.message)
  | .uuid u => Validation.require (!u.isNil) (.empty "UUID")
  | .bytes bs => Validation.require (!bs.isEmpty) (.empty "bytes")
  | .custom variant content => variant.validate content

/-- Whether the value is the plain string. -/
def isPlain : ChoiceValue → Bool
  | .text _ => true
  | _ => false

/-! ## Payloads -/

/-- The payload in the binary form. -/
def toCbor : ChoiceValue → Except EncodingError Cbor
  | .text s => .ok (.text s)
  | .oid dotted => match Oid.toBer dotted with
    | .ok ber => .ok (.bytes ber)
    | .error e => .error (.value e.message)
  | .uuid u => .ok (.bytes u.octets)
  | .bytes bs => .ok (.bytes bs)
  | .custom variant content => variant.toCbor content

/-- The value of the same variant with the given binary payload. -/
def setCbor (value : ChoiceValue) (payload : Cbor) : Except DecodeError ChoiceValue :=
  match value with
  | .text _ => return .text (← Cbor.expectText payload)
  | .oid _ => do
    let ber ← Cbor.expectBytes payload
    match Oid.ofBer ber with
    | .ok dotted => return .oid dotted
    | .error e => throw (.invalidValue e.message)
  | .uuid _ => do
    let raw ← Cbor.expectBytes payload
    match Uuid.ofBytes raw with
    | .ok u => return .uuid u
    | .error e => throw (.invalidValue e.message)
  | .bytes _ => return .bytes (← Cbor.expectBytes payload)
  | .custom variant content => return .custom variant (← variant.setCbor content payload)

/-- The payload in the text form. -/
def toJson : ChoiceValue → Except EncodingError Json
  | .text s => .ok (.string s)
  | .oid dotted => .ok (.string dotted)
  | .uuid u => .ok (.string u.toString)
  | .bytes bs => .ok (.string (Base64.encode bs))
  | .custom variant content => variant.toJson content

/-- The value of the same variant with the given text payload. -/
def setJson (value : ChoiceValue) (payload : Json) : Except DecodeError ChoiceValue :=
  match value with
  | .text _ => return .text (← Json.expectString payload)
  | .oid _ => do
    let dotted ← Json.expectString payload
    match Oid.canonical dotted with
    | .ok dotted => return .oid dotted
    | .error e => throw (.invalidValue e.message)
  | .uuid _ => do
    let s ← Json.expectString payload
    match Uuid.parse s with
    | .ok u => return .uuid u
    | .error e => throw (.invalidValue e.message)
  | .bytes _ => do
    let s ← Json.expectString payload
    return .bytes (← Coding.readBase64 s)
  | .custom variant content => return .custom variant (← variant.setJson content payload)

/-! ## Equality of data -/

/-- Whether two values are equal as data. A value without a binary payload equals none. -/
def same (a b : ChoiceValue) : Bool :=
  a.typeTag == b.typeTag &&
    match a.toCbor, b.toCbor with
    | .ok p, .ok q => p.agrees q
    | _, _ => false

instance : BEq ChoiceValue := ⟨same⟩

/-- Setting a payload keeps the type tag. -/
theorem typeTag_setCbor {value result : ChoiceValue} {payload : Cbor}
    (h : value.setCbor payload = .ok result) : result.typeTag = value.typeTag := by
  cases value <;> simp only [setCbor, bind, Except.bind, pure, Except.pure] at h <;>
    (repeat' split at h) <;> simp_all [typeTag] <;> subst h <;> rfl

end ChoiceValue

end Rim
