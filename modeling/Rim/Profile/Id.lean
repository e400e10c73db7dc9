import Rim.Oid
import Rim.Wire.Coding

/-!
# Profile identifiers

* `ProfileId`: an absolute URI or an object identifier.
* `ProfileId.parse`: reads either; a text of digits and points is meant as an object identifier.
* `ProfileId.coding`: tagged in the binary form, a string in the text form.
-/

namespace Rim

/-- The globally unique name of a profile. -/
inductive ProfileId where
  | uri (s : String)
  /-- An object identifier in dotted text. -/
  | oid (dotted : String)
  deriving DecidableEq, Repr

/-- Why a text names no profile. -/
structure ProfileError where
  id : String
  reason : String
  deriving DecidableEq, Repr

/-- The text of an error. -/
def ProfileError.message (e : ProfileError) : String :=
  s!"invalid profile id {Text.quote e.id}: {e.reason}"

namespace ProfileId

/-- The text of an identifier. -/
def text : ProfileId → String
  | .uri s => s
  | .oid dotted => dotted

/-- Whether a text is meant as an object identifier. -/
def looksDotted (s : String) : Bool :=
  !s.toList.isEmpty && s.toList.all fun c => c.isDigit || c == '.'

/-- Reads an identifier. Object identifiers are brought into canonical spelling. -/
def parse (s : String) : Except ProfileError ProfileId :=
  if looksDotted s then
    match Oid.canonical s with
    | .ok dotted => .ok (.oid dotted)
    | .error e => .error ⟨s, e.message⟩
  else if Uri.isAbsolute s then .ok (.uri s)
  else .error ⟨s, "neither an OID nor an absolute URI"⟩

/-- URIs come before object identifiers, and each are in the order of their texts. -/
def le : ProfileId → ProfileId → Bool
  | .uri a, .uri b => a ≤ b
  | .uri _, .oid _ => true
  | .oid _, .uri _ => false
  | .oid a, .oid b => a ≤ b

/-! ## The wire -/

def toCbor : ProfileId → Except EncodingError Cbor
  | .uri s => .ok (.tag TagNumber.uri (.text s))
  | .oid dotted => match Oid.toBer dotted with
    | .ok ber => .ok (.tag TagNumber.oid (.bytes ber))
    | .error e => .error (.value e.message)

/-- Reads a tagged URI, which has to be absolute, or a tagged object identifier. -/
def ofCbor (v : Cbor) : Except DecodeError ProfileId := do
  match v with
  | .tag number content =>
    if number = TagNumber.uri then
      let s ← Cbor.expectText content
      if Uri.isAbsolute s then return .uri s
      throw (.invalidValue s!"{Text.quote s} is not an absolute URI")
    else if number = TagNumber.oid then
      let ber ← Cbor.expectBytes content
      match Oid.ofBer ber with
      | .ok dotted => return .oid dotted
      | .error e => throw (.invalidValue e.message)
    else Cbor.unexpected "URI or OID profile" v
  | v => Cbor.unexpected "URI or OID profile" v

/-- Reads a string. -/
def ofJson (v : Json) : Except DecodeError ProfileId := do
  let s ← Json.expectString v
  (parse s).mapError fun e => .invalidValue e.message

def coding : Coding ProfileId where
  encode
    | .binary, id => toCbor id
    | .text, id => .ok (Json.string id.text)
  decode
    | .binary, v => ofCbor v
    | .text, v => ofJson v

end ProfileId

end Rim
