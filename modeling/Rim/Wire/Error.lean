import Rim.Choice.Basic
import Rim.Text.Quoted
import Rim.Validation

/-!
# Errors of reading and writing

* `Form`: the two wire forms.
* `DecodeError`: why an input is not a record; wrappers tell the way to the place.
* `EncodingError`: why a record has no wire form.
* `root`: the error inside all wrappers.
-/

namespace Rim

/-- The two wire forms: CBOR and JSON. -/
inductive Form where
  | binary
  | text
  deriving DecidableEq, Repr

/-- The name of a form in messages. -/
def Form.label : Form → String
  | .binary => "CBOR"
  | .text => "JSON"

/-- Why an input cannot be decoded. -/
inductive DecodeError where
  /-- A binary input without octets. -/
  | emptyInput
  /-- The input is not in the form at all. -/
  | malformed (form : Form)
  /-- A binary item is followed by more octets. -/
  | trailingData (count : Nat)
  | unexpectedType (expected found : String)
  | unknownVariant (family : Family) (discriminator : String)
  | unknownField (record key : String)
  | duplicateField (record key : String)
  | invalidValue (message : String)
  /-- A decoded variant is not valid. -/
  | invalidVariant (typeTag : String) (cause : ValidationError)
  /-- A variant could not be built. -/
  | choice (cause : ChoiceError)
  /-- In the payload of a variant. -/
  | variant (family : Family) (typeTag : String) (cause : DecodeError)
  | field (name : String) (cause : DecodeError)
  | index (index : Nat) (cause : DecodeError)
  | extension (key : String) (cause : DecodeError)
  | record (name : String) (cause : DecodeError)
  deriving DecidableEq, Repr

namespace DecodeError

/-- A value of another kind than expected, with the beginning of its description. -/
def unexpected (expected description : String) : DecodeError :=
  .unexpectedType expected (Text.excerpt description)

/-- The text of an error. What exactly is malformed is not told. -/
def message : DecodeError → String
  | .emptyInput => s!"malformed {Form.binary.label} input: empty input"
  | .malformed form => s!"malformed {form.label} input"
  | .trailingData count => s!"{count} trailing bytes after {Form.binary.label} item"
  | .unexpectedType expected found => s!"expected {expected}, found {found}"
  | .unknownVariant family discriminator => s!"unknown {family.name} variant: {discriminator}"
  | .unknownField owner key => s!"unknown field {key} in {owner}"
  | .duplicateField owner key => s!"duplicate field {key} in {owner}"
  | .invalidValue message => s!"invalid value: {message}"
  | .invalidVariant typeTag cause => s!"invalid {typeTag}: {cause.message}"
  | .choice cause => cause.message
  | .variant family typeTag cause => s!"{family.name} {typeTag}: {cause.message}"
  | .field name cause => s!"{name}: {cause.message}"
  | .index i cause => s!"index {i}: {cause.message}"
  | .extension key cause => s!"extension {key}: {cause.message}"
  | .record name cause => s!"{name}: {cause.message}"

/-- The error inside all wrappers. -/
def root : DecodeError → DecodeError
  | .variant _ _ cause => cause.root
  | .field _ cause => cause.root
  | .index _ cause => cause.root
  | .extension _ cause => cause.root
  | .record _ cause => cause.root
  | e => e

end DecodeError

/-- Why a value has no wire form. -/
inductive EncodingError where
  /-- The value does not pass validation. -/
  | invalid (cause : ValidationError)
  | record (name : String) (cause : EncodingError)
  /-- The type tag of a variant is not registered in its family. -/
  | unregisteredVariant (family : Family) (typeTag : String)
  | extension (key message : String)
  | value (message : String)
  deriving DecidableEq, Repr

namespace EncodingError

/-- The text of an error. -/
def message : EncodingError → String
  | .invalid cause => s!"refusing to encode invalid value: {cause.message}"
  | .record name cause => s!"{name}: {cause.message}"
  | .unregisteredVariant family typeTag =>
    s!"{family.name} {typeTag}: no variant registered under this type tag"
  | .extension key message => s!"extension {key}: {message}"
  | .value message => s!"unencodable value: {message}"

/-- The error inside all wrappers. -/
def root : EncodingError → EncodingError
  | .record _ cause => cause.root
  | e => e

end EncodingError

end Rim
