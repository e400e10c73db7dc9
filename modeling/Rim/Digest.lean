import Rim.Hash.Sha
import Rim.Wire.Coding

/-!
# Digests

Measured digests: pairs of an algorithm and octets in the binary form, texts `algorithm;base64` in
the text form.

* `HashAlgorithm`: the algorithms with their numbers, names and lengths.
* `Digests`: digests in the order they were added. `Digests.add` checks the length, reading does not.
-/

namespace Rim

/-- The hash algorithms of the base schema. -/
inductive HashAlgorithm where
  | sha256
  /-- The first half of SHA-256. -/
  | sha256Half
  | sha384
  | sha512
  deriving DecidableEq, Repr

namespace HashAlgorithm

def all : List HashAlgorithm := [.sha256, .sha256Half, .sha384, .sha512]

/-- The number of an algorithm in the binary form. -/
def number : HashAlgorithm → UInt64
  | .sha256 => 1
  | .sha256Half => 2
  | .sha384 => 7
  | .sha512 => 8

/-- The name of an algorithm in the text form. -/
def name : HashAlgorithm → String
  | .sha256 => "sha-256"
  | .sha256Half => "sha-256-128"
  | .sha384 => "sha-384"
  | .sha512 => "sha-512"

/-- The number of octets of a digest. -/
def length : HashAlgorithm → Nat
  | .sha256 => 32
  | .sha256Half => 16
  | .sha384 => 48
  | .sha512 => 64

/-- The digest of some octets. -/
def compute : HashAlgorithm → Bytes → Bytes
  | .sha256, bs => Sha.sha256 bs
  | .sha256Half, bs => (Sha.sha256 bs).take 16
  | .sha384, bs => Sha.sha384 bs
  | .sha512, bs => Sha.sha512 bs

def ofNumber? (n : UInt64) : Option HashAlgorithm := all.find? fun a => a.number == n

def ofName? (s : String) : Option HashAlgorithm := all.find? fun a => a.name == s

@[simp] theorem ofNumber?_number (a : HashAlgorithm) : ofNumber? a.number = some a := by
  cases a <;> rfl

@[simp] theorem ofName?_name (a : HashAlgorithm) : ofName? a.name = some a := by
  cases a <;> decide

@[simp] theorem length_compute (a : HashAlgorithm) (bs : Bytes) :
    (a.compute bs).length = a.length := by
  cases a <;> simp [compute, length, Sha.sha256, Sha.sha384, Sha.sha512, Sha.variant32,
    Sha.variant64]

end HashAlgorithm

/-- A digest with its algorithm. -/
structure Digest where
  algorithm : HashAlgorithm
  value : Bytes
  deriving DecidableEq, Repr

namespace Digest

/-- A digest has the length of its algorithm. -/
def validate (d : Digest) : Validation :=
  Validation.require (d.value.length = d.algorithm.length) <| .invalid
    s!"{d.algorithm.name} digest must be {d.algorithm.length} bytes, got {d.value.length}"

/-- The text of a digest. -/
def toText (d : Digest) : String := d.algorithm.name ++ ";" ++ Base64.encode d.value

/-- Reads the text of a digest, which is cut at the first semicolon. -/
def ofText (s : String) : Except DecodeError Digest := do
  match Text.cut? ';' s.toList with
  | none => throw (.invalidValue s!"digest {Text.quote s} is not \"<alg>;<base64>\"")
  | some (before, after) =>
    let name := String.ofList before
    match HashAlgorithm.ofName? name with
    | none => throw (.invalidValue s!"unknown hash algorithm {Text.quote name}")
    | some algorithm => return ⟨algorithm, ← Coding.readBase64 (String.ofList after)⟩

/-- Reads the pair of a digest. -/
def ofCbor (v : Cbor) : Except DecodeError Digest := do
  match ← Cbor.expectArray v with
  | [algorithm, value] =>
    let n ← Cbor.expectUInt algorithm
    match HashAlgorithm.ofNumber? n with
    | none => throw (.invalidValue s!"unknown hash algorithm {n.toNat}")
    | some algorithm => return ⟨algorithm, ← Cbor.expectBytes value⟩
  | _ => throw (.invalidValue "digest must be [alg, bytes]")

def coding : Coding Digest where
  encode
    | .binary, d => .ok (Cbor.array [.uint d.algorithm.number, .bytes d.value])
    | .text, d => .ok (Json.string d.toText)
  decode
    | .binary, v => ofCbor v
    | .text, v => do ofText (← Json.expectString v)

end Digest

/-- Digests in the order they were added. -/
structure Digests where
  entries : List Digest
  deriving DecidableEq, Repr

namespace Digests

def empty : Digests := ⟨[]⟩

/-- Adds a digest of the right length. -/
def add (ds : Digests) (algorithm : HashAlgorithm) (value : Bytes) :
    Except ValidationError Digests := do
  let d : Digest := ⟨algorithm, value⟩
  d.validate
  return ⟨ds.entries ++ [d]⟩

/-- Adds the digest of some octets. -/
def addComputed (ds : Digests) (algorithm : HashAlgorithm) (content : Bytes) : Digests :=
  ⟨ds.entries ++ [⟨algorithm, algorithm.compute content⟩]⟩

/-- There is a digest, and every one has the length of its algorithm. -/
def validate (ds : Digests) : Validation := do
  Validation.require (!ds.entries.isEmpty) (.empty "digests")
  Validation.list "digests" Digest.validate ds.entries

def coding : Coding Digests where
  encode f ds := (Coding.list Digest.coding).encode f ds.entries
  decode f v := return ⟨← (Coding.list Digest.coding).decode f v⟩

end Digests

end Rim
