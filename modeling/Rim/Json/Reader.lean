import Rim.Bytes
import Rim.Json.Numeral
import Rim.Text.Hex

/-!
# Reading JSON

* `Json.read?`: the value that an octet string spells, with nothing but blanks around it.

Arrays and objects nest up to `maxDepth` levels. Of members with one name the last value counts, in
the place of the first. Escapes of surrogates have to come in pairs.

A reader takes the characters that are left and returns what it read with those after it.
-/

namespace Rim.Json

/-- The number of levels that arrays and objects may nest. -/
def maxDepth : Nat := 127

/-! ## Blanks and strings -/

def isBlank (c : Char) : Bool := c == ' ' || c == '\n' || c == '\r' || c == '\t'

def skipBlanks (s : List Char) : List Char := s.dropWhile isBlank

/-- The value of a hexadecimal digit. -/
def hexValue? (c : Char) : Option Nat :=
  if c.toNat < 128 then Hex.value? (UInt8.ofNat c.toNat) else none

/-- Four hexadecimal digits. -/
def unit? : List Char → Option (Nat × List Char)
  | a :: b :: c :: d :: rest => do
    let a ← hexValue? a
    let b ← hexValue? b
    let c ← hexValue? c
    let d ← hexValue? d
    return (a * 4096 + b * 256 + c * 16 + d, rest)
  | _ => none

/-- The character of one escaped unit, or of two that are a surrogate pair. -/
def unicodeEscape (s : List Char) : Option (Char × List Char) := do
  let (high, rest) ← unit? s
  if high < 0xd800 ∨ 0xe000 ≤ high then return (Char.ofNat high, rest)
  if 0xdc00 ≤ high then none
  match rest with
  | '\\' :: 'u' :: rest => do
    let (low, rest) ← unit? rest
    if low < 0xdc00 ∨ 0xe000 ≤ low then none
    return (Char.ofNat (0x10000 + (high - 0xd800) * 1024 + (low - 0xdc00)), rest)
  | _ => none

/-- The character after a backslash. -/
def escaped : List Char → Option (Char × List Char)
  | '"' :: rest => some ('"', rest)
  | '\\' :: rest => some ('\\', rest)
  | '/' :: rest => some ('/', rest)
  | 'b' :: rest => some ('\x08', rest)
  | 'f' :: rest => some ('\x0c', rest)
  | 'n' :: rest => some ('\n', rest)
  | 'r' :: rest => some ('\r', rest)
  | 't' :: rest => some ('\t', rest)
  | 'u' :: rest => unicodeEscape rest
  | _ => none

/-- The characters of a string up to its closing quote, of which at most `fuel`. -/
def stringBody : (fuel : Nat) → List Char → Option (List Char × List Char)
  | 0, _ => none
  | _ + 1, [] => none
  | _ + 1, '"' :: rest => some ([], rest)
  | fuel + 1, '\\' :: rest => do
    let (c, rest) ← escaped rest
    let (cs, rest) ← stringBody fuel rest
    return (c :: cs, rest)
  | fuel + 1, c :: rest =>
    if c.toNat < 0x20 then none
    else do
      let (cs, rest) ← stringBody fuel rest
      return (c :: cs, rest)

/-- A string, after its opening quote. -/
def string? (s : List Char) : Option (String × List Char) := do
  let (cs, rest) ← stringBody s.length s
  return (String.ofList cs, rest)

/-! ## Lists -/

/-- One or more things with commas between them, up to a closing character. -/
def separated {α : Type} (read : List Char → Option (α × List Char)) (close : Char) :
    (fuel : Nat) → List Char → Option (List α × List Char)
  | 0, _ => none
  | fuel + 1, s => do
    let (x, s) ← read s
    match skipBlanks s with
    | ',' :: s =>
      let (xs, s) ← separated read close fuel s
      return (x :: xs, s)
    | c :: s => if c = close then return ([x], s) else none
    | [] => none

/-- Nothing, or things with commas between them, up to a closing character. -/
def listUntil {α : Type} (read : List Char → Option (α × List Char)) (close : Char)
    (s : List Char) : Option (List α × List Char) :=
  match skipBlanks s with
  | [] => none
  | c :: rest => if c = close then some ([], rest) else separated read close (c :: rest).length (c :: rest)

/-- A member: a name in quotes, a colon and a value. -/
def member (read : List Char → Option (Json × List Char)) (s : List Char) :
    Option ((String × Json) × List Char) :=
  match skipBlanks s with
  | '"' :: s => do
    let (name, s) ← string? s
    match skipBlanks s with
    | ':' :: s => do
      let (v, s) ← read s
      return ((name, v), s)
    | _ => none
  | _ => none

/-! ## Values -/

/-- The rest of a word whose first character has been seen. -/
def word (letters : String) (v : Json) (s : List Char) : Option (Json × List Char) :=
  if letters.toList.isPrefixOf s then some (v, s.drop letters.length) else none

/-- Reads a value, given the reader of the values nested in it; without one it may hold none. -/
def readWith (nested : Option (List Char → Option (Json × List Char))) (s : List Char) :
    Option (Json × List Char) :=
  match skipBlanks s with
  | 'n' :: s => word "ull" .null s
  | 't' :: s => word "rue" (.bool true) s
  | 'f' :: s => word "alse" (.bool false) s
  | '"' :: s => do
    let (text, s) ← string? s
    return (.string text, s)
  | '[' :: s => do
    let read ← nested
    let (items, s) ← listUntil read ']' s
    return (.array items, s)
  | '{' :: s => do
    let read ← nested
    let (members, s) ← listUntil (member read) '}' s
    return (.object (Members.ofList members), s)
  | s => do
    let (n, s) ← Number.read s
    return (.number n, s)

/-- Reads a value that nests at most `depth` levels. -/
def readValue : (depth : Nat) → List Char → Option (Json × List Char)
  | 0 => readWith none
  | depth + 1 => readWith (some (readValue depth))

/-- The value of a whole text. -/
def readText? (s : String) : Option Json := do
  let (v, rest) ← readValue maxDepth s.toList
  if (skipBlanks rest).isEmpty then some v else none

/-- The value of an octet string; one that is not UTF-8 spells none. -/
def read? (bs : Bytes) : Option Json := Bytes.toString? bs >>= readText?

end Rim.Json
