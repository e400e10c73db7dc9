import Rim.Text.Split

/-!
# Absolute URIs

* `Uri.isAbsolute`: a scheme, a colon and something after it.
-/

namespace Rim.Uri

/-- A scheme is a letter followed by letters, digits and the signs `+`, `-`, `.`. -/
def isScheme : List Char → Bool
  | [] => false
  | c :: rest =>
    c.isAlpha && rest.all fun c => c.isAlphanum || c == '+' || c == '-' || c == '.'

/-- Whether a text is `scheme:rest` with a scheme and a rest that is not empty. The rest is not
looked at. -/
def isAbsolute (s : String) : Bool :=
  match Text.cut? ':' s.toList with
  | some (scheme, rest) => isScheme scheme && !rest.isEmpty
  | none => false

example : isAbsolute "urn:x" ∧ ¬ isAbsolute "https:" ∧ ¬ isAbsolute "1http://x" := by
  decide +kernel

end Rim.Uri
