import Rim.Digest

/-!
# Extension values

* `ExtensionType`: the types that an extension field may have, with their codings.
* `CustomType`: what a type declared elsewhere has to tell about itself.
* `ExtensionValue`: a value of one of the types.
-/

namespace Rim

/-- A type of extension values outside this library. Its values are held as items. -/
structure CustomType where
  name : String
  fromCbor : Cbor → Except DecodeError Cbor
  fromJson : Json → Except DecodeError Cbor
  toCbor : Cbor → Except EncodingError Cbor
  toJson : Cbor → Except EncodingError Json
  validate : Cbor → Validation

/-- The type of an extension field. -/
inductive ExtensionType where
  | uint
  | int
  | bool
  | string
  | bytes
  | digests
  | custom (type : CustomType)

/-- A value of an extension field. -/
inductive ExtensionValue where
  | uint (n : UInt64)
  | int (n : Int64)
  | bool (b : Bool)
  | string (s : String)
  | bytes (bs : Bytes)
  | digests (ds : Digests)
  | custom (type : CustomType) (content : Cbor)

namespace ExtensionType

/-- The name of a type in messages. -/
def name : ExtensionType → String
  | .uint => "u64"
  | .int => "i64"
  | .bool => "bool"
  | .string => "alloc::string::String"
  | .bytes => "alloc::vec::Vec<u8>"
  | .digests => "manifest_core::comid::digest::Digests"
  | .custom type => type.name

/-- Whether two types are one. Types from elsewhere are told apart by their names. -/
def same : ExtensionType → ExtensionType → Bool
  | .uint, .uint => true
  | .int, .int => true
  | .bool, .bool => true
  | .string, .string => true
  | .bytes, .bytes => true
  | .digests, .digests => true
  | .custom a, .custom b => a.name == b.name
  | _, _ => false

@[simp] theorem same_self (t : ExtensionType) : t.same t = true := by cases t <;> simp [same]

/-- Decodes a value of the type. -/
def decode (t : ExtensionType) (f : Form) (v : f.Value) : Except DecodeError ExtensionValue :=
  match t with
  | .uint => return .uint (← Coding.uint.decode f v)
  | .int => return .int (← Coding.int.decode f v)
  | .bool => return .bool (← Coding.bool.decode f v)
  | .string => return .string (← Coding.text.decode f v)
  | .bytes => return .bytes (← Coding.bytes.decode f v)
  | .digests => return .digests (← Digests.coding.decode f v)
  | .custom type => do
    match f, v with
    | .binary, v => return .custom type (← type.fromCbor v)
    | .text, v => return .custom type (← type.fromJson v)

end ExtensionType

namespace ExtensionValue

/-- The type of a value. -/
def type : ExtensionValue → ExtensionType
  | .uint _ => .uint
  | .int _ => .int
  | .bool _ => .bool
  | .string _ => .string
  | .bytes _ => .bytes
  | .digests _ => .digests
  | .custom type _ => .custom type

/-- Encodes a value. -/
def encode (value : ExtensionValue) (f : Form) : Except EncodingError f.Value :=
  match value with
  | .uint n => Coding.uint.encode f n
  | .int n => Coding.int.encode f n
  | .bool b => Coding.bool.encode f b
  | .string s => Coding.text.encode f s
  | .bytes bs => Coding.bytes.encode f bs
  | .digests ds => Digests.coding.encode f ds
  | .custom type content => match f with
    | .binary => type.toCbor content
    | .text => type.toJson content

/-- Texts must not be empty, and digests must be valid. -/
def validate : ExtensionValue → Validation
  | .string s => Validation.require (s != "") (.empty "string")
  | .digests ds => ds.validate
  | .custom type content => type.validate content
  | _ => .ok ()

/-- Whether two values are equal as data: one type, and one binary form. -/
def same (a b : ExtensionValue) : Bool :=
  a.type.same b.type &&
    match a.encode .binary, b.encode .binary with
    | .ok p, .ok q => Cbor.agrees p q
    | _, _ => false

end ExtensionValue

end Rim
