import Rim.Json.Basic
import Rim.Text.Quoted

/-!
# JSON values in messages

* `Json.describe`: a value with the names of its kinds, as messages show what was found.
-/

namespace Rim.Json

mutual

/-- A value with the names of its kinds. -/
def describe : Json → String
  | .null => "Null"
  | .bool b => s!"Bool({b})"
  | .number n => s!"Number({n.render})"
  | .string s => s!"String({Text.quote s})"
  | .array items => "Array [" ++ Text.listing (describeItems items) ++ "]"
  | .object members => "Object \x7b" ++ Text.listing (describeMembers members) ++ "\x7d"

/-- The items of an array, one by one. -/
def describeItems : List Json → List String
  | [] => []
  | v :: rest => describe v :: describeItems rest

/-- The members of an object, one by one. -/
def describeMembers : List (String × Json) → List String
  | [] => []
  | (name, v) :: rest => s!"{Text.quote name}: {describe v}" :: describeMembers rest

end

end Rim.Json
