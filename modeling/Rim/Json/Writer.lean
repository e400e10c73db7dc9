import Rim.Bytes
import Rim.Json.Basic
import Rim.Text.Quoted

/-!
# Writing JSON

* `Json.chars`: the compact text of a value, without blanks.
* `Json.write`: its octets.

Inside strings only the quote, the backslash and control characters are escaped.
-/

namespace Rim.Json

/-- One character of a string. Control characters without an escape of their own are written as
four lower-case hexadecimal digits. -/
def escape (c : Char) : List Char :=
  match c with
  | '"' => ['\\', '"']
  | '\\' => ['\\', '\\']
  | '\x08' => ['\\', 'b']
  | '\x0c' => ['\\', 'f']
  | '\n' => ['\\', 'n']
  | '\r' => ['\\', 'r']
  | '\t' => ['\\', 't']
  | c =>
    if c.toNat < 0x20 then
      ['\\', 'u', '0', '0', Nat.digitChar (c.toNat / 16), Nat.digitChar (c.toNat % 16)]
    else [c]

/-- A string in quotes. -/
def quoted (s : String) : List Char := '"' :: s.toList.flatMap escape ++ ['"']

mutual

/-- The compact text of a value. -/
def chars : Json → List Char
  | .null => "null".toList
  | .bool true => "true".toList
  | .bool false => "false".toList
  | .number n => n.render.toList
  | .string s => quoted s
  | .array [] => ['[', ']']
  | .array (v :: rest) => '[' :: chars v ++ restItems rest
  | .object [] => ['{', '}']
  | .object ((name, v) :: rest) => '{' :: quoted name ++ ':' :: chars v ++ restMembers rest

/-- The items after the first, and the closing bracket. -/
def restItems : List Json → List Char
  | [] => [']']
  | v :: rest => ',' :: chars v ++ restItems rest

/-- The members after the first, and the closing brace. -/
def restMembers : List (String × Json) → List Char
  | [] => ['}']
  | (name, v) :: rest => ',' :: quoted name ++ ':' :: chars v ++ restMembers rest

end

/-- The compact text as a string. -/
def text (v : Json) : String := String.ofList (chars v)

/-- The octets of the compact text. -/
def write (v : Json) : Bytes := Bytes.ofString (text v)

end Rim.Json
