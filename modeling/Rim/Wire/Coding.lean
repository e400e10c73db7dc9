import Rim.Text.Base64
import Rim.Uri
import Rim.Wire.Form

/-!
# Values with forms of their own

* `Coding`: the two forms of a type of values that need no context.
* `TagNumber`: the tags of the binary form that the base schema uses.
* `Coding.text`, `Coding.uint`, …: the codings of plain values.
* `Coding.list`: lists of coded values.
-/

namespace Rim

/-- How the values of a type are written and read in both forms, whatever surrounds them. -/
structure Coding (α : Type) where
  encode : (f : Form) → α → Except EncodingError f.Value
  decode : (f : Form) → f.Value → Except DecodeError α

/-! ## Tags of the binary form -/

namespace TagNumber

/-- A time in seconds since 1970. -/
def epochTime : UInt64 := 1

def uri : UInt64 := 32

def uuid : UInt64 := 37

/-- The content octets of an object identifier. -/
def oid : UInt64 := 111

def unsignedCorim : UInt64 := 501

/-- An encoded tag inside a manifest. -/
def comid : UInt64 := 506

def svnExact : UInt64 := 552

def svnMin : UInt64 := 553

def taggedBytes : UInt64 := 560

end TagNumber

namespace Coding

/-- Text. -/
def text : Coding String where
  encode
    | .binary, s => .ok (Cbor.text s)
    | .text, s => .ok (Json.string s)
  decode
    | .binary, v => Cbor.expectText v
    | .text, v => Json.expectString v

/-- Unsigned integers. -/
def uint : Coding UInt64 where
  encode
    | .binary, n => .ok (Cbor.uint n)
    | .text, n => .ok (Json.number (.ofUInt64 n))
  decode
    | .binary, v => Cbor.expectUInt v
    | .text, v => Json.expectUInt v

/-- Signed integers. -/
def int : Coding Int64 where
  encode
    | .binary, n => .ok (Cbor.ofInt64 n)
    | .text, n => .ok (Json.number (.ofInt64 n))
  decode
    | .binary, v => Cbor.expectInt v
    | .text, v => Json.expectInt v

/-- Truth values. -/
def bool : Coding Bool where
  encode
    | .binary, b => .ok (Cbor.bool b)
    | .text, b => .ok (Json.bool b)
  decode
    | .binary, v => Cbor.expectBool v
    | .text, v => Json.expectBool v

/-- Reads base64 text. -/
def readBase64 (s : String) : Except DecodeError Bytes :=
  (Base64.decode s).mapError fun e => .invalidValue e.message

/-- Byte strings; base64 in the text form. -/
def bytes : Coding Bytes where
  encode
    | .binary, bs => .ok (Cbor.bytes bs)
    | .text, bs => .ok (Json.string (Base64.encode bs))
  decode
    | .binary, v => Cbor.expectBytes v
    | .text, v => do readBase64 (← Json.expectString v)

/-- Texts that stand under the tag of URIs in the binary form. They are not looked at. -/
def taggedUri : Coding String where
  encode
    | .binary, s => .ok (Cbor.tag TagNumber.uri (.text s))
    | .text, s => .ok (Json.string s)
  decode
    | .binary, v => do Cbor.expectText (← Cbor.expectTag TagNumber.uri v)
    | .text, v => Json.expectString v

/-! ## Lists -/

/-- Decodes elements from the given index on; the first failure is told with its index. -/
def decodeFrom {α β : Type} (read : α → Except DecodeError β) :
    (index : Nat) → List α → Except DecodeError (List β)
  | _, [] => .ok []
  | i, x :: rest => do
    let y ← (read x).mapError (.index i)
    return y :: (← decodeFrom read (i + 1) rest)

/-- Lists of coded values. -/
def list {α : Type} (c : Coding α) : Coding (List α) where
  encode f xs := return f.array (← xs.mapM (c.encode f))
  decode f v := do decodeFrom (c.decode f) 0 (← f.elements v)

end Coding

/-- The violation of a text that should be an absolute URI. -/
def ValidationError.notAbsoluteUri (field uri : String) : ValidationError :=
  (ValidationError.invalid s!"{Text.quote uri} is not an absolute URI").within (.field field)

/-- An optional URI: if present, it is neither empty nor relative. -/
def Validation.optionalUri (field : String) : Option String → Validation
  | none => .ok ()
  | some uri =>
    if uri = "" then .error (.empty field)
    else require (Uri.isAbsolute uri) (.notAbsoluteUri field uri)

end Rim
