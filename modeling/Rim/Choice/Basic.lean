import Rim.Bytes

/-!
# Type choices

Some fields hold one of several interchangeable variants. A family is an open set of variants; each
variant has a type tag, by which the text form selects it, and a discriminator, by which the binary
form does.

* `Family`: the named sets; `entityName`, `classId`, `tagId` and `corimId` belong to the base schema.
* `Discriminator`: how an item of the binary form tells its variant.
* `Seed`: what a variant may be built from.
* `ChoiceError`: why there is no variant, or none can be built.
-/

namespace Rim

/-- A named, open set of variants. -/
structure Family where
  name : String
  deriving DecidableEq, Repr

namespace Family

def entityName : Family := ⟨"entity-name"⟩

def classId : Family := ⟨"class-id"⟩

def tagId : Family := ⟨"tag-id"⟩

def corimId : Family := ⟨"corim-id"⟩

end Family

/-- How a variant is recognised in the binary form: an item that is a bare text or byte string, or
a tag. -/
inductive Discriminator where
  | bareText
  | bareBytes
  | tag (number : UInt64)
  deriving DecidableEq, Repr

/-- The text of a discriminator in messages. -/
def Discriminator.describe : Discriminator → String
  | .bareText => "bare text"
  | .bareBytes => "bare bytes"
  | .tag number => s!"tag {number.toNat}"

/-- What a variant may be built from. -/
inductive Seed where
  | text (s : String)
  | bytes (bs : Bytes)
  | uint (n : UInt64)
  deriving DecidableEq, Repr

/-- The kind of a seed in messages. -/
def Seed.kind : Seed → String
  | .text _ => "text"
  | .bytes _ => "bytes"
  | .uint _ => "uint"

/-- Why a variant is not found or not built. -/
inductive ChoiceError where
  /-- Nothing is registered under the type tag or discriminator. -/
  | unknownVariant (family : Family) (key : String)
  /-- The variant is not built from seeds of this kind. -/
  | unexpectedSeed (typeTag : String) (seed : String)
  /-- The seed has the right kind but a wrong content. -/
  | invalidSeed (typeTag : String) (message : String)
  /-- The family has no bare-text variant. -/
  | noPlainVariant (family : Family)
  deriving DecidableEq, Repr

/-- The text of an error. -/
def ChoiceError.message : ChoiceError → String
  | .unknownVariant family key => s!"unknown {family.name} variant: {key}"
  | .unexpectedSeed typeTag seed => s!"{typeTag} cannot be built from a {seed} seed"
  | .invalidSeed typeTag message => s!"invalid {typeTag} seed: {message}"
  | .noPlainVariant family => s!"{family.name} has no bare-text variant"

end Rim
