import Rim.Registry

/-!
# Errors of any kind

* `ManifestError`: an error of one of the layers, for callers that use several. The errors of every
  layer are coerced to it.
* `ManifestError.message`: its text, with the layer in front.
* `ManifestError.violation?`: the violation that an error is about.
-/

namespace Rim

/-- An error of one of the layers. -/
inductive ManifestError where
  | registration (cause : RegistrationError)
  | choice (cause : ChoiceError)
  | extension (cause : ExtensionError)
  | profile (cause : ProfileError)
  | validation (cause : ValidationError)
  | decode (cause : DecodeError)
  | encode (cause : EncodingError)
  deriving DecidableEq, Repr

namespace ManifestError

instance : Coe RegistrationError ManifestError := ⟨registration⟩
instance : Coe ChoiceError ManifestError := ⟨choice⟩
instance : Coe ExtensionError ManifestError := ⟨extension⟩
instance : Coe ProfileError ManifestError := ⟨profile⟩
instance : Coe ValidationError ManifestError := ⟨validation⟩
instance : Coe DecodeError ManifestError := ⟨decode⟩
instance : Coe EncodingError ManifestError := ⟨encode⟩

/-- The text of an error with its layer. -/
def message : ManifestError → String
  | .registration cause => s!"registration error: {cause.message}"
  | .choice cause => s!"type choice error: {cause.message}"
  | .extension cause => s!"extension error: {cause.message}"
  | .profile cause => s!"profile error: {cause.message}"
  | .validation cause => s!"validation error: {cause.message}"
  | .decode cause => s!"decode error: {cause.message}"
  | .encode cause => s!"encode error: {cause.message}"

/-- Whether input data is to blame, rather than setup. -/
def isDataError : ManifestError → Bool
  | .validation _ => true
  | .decode _ => true
  | .encode _ => true
  | _ => false

/-- The violation that an error is about, be it found by validation or by a refused encode. -/
def violation? : ManifestError → Option ValidationError
  | .validation cause => some cause
  | .encode cause => match cause.root with
    | .invalid violation => some violation
    | _ => none
  | _ => none

end ManifestError

end Rim
