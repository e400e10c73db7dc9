import Rim.Text.Printable

/-!
# Quoted text

Texts and characters as they appear inside messages: between quotes, on one line, with
everything that a terminal would not show written by number.

* `quote`: a text between double quotes.
* `quoteChar`: a character between single quotes.
* `listing`: texts with commas between them.
* `excerpt`: the first characters of a text, for messages that name what was found.
-/

namespace Rim.Text

/-- The lower-case hexadecimal digits of a number, without leading zeros. -/
def hexDigits (n : Nat) : String := String.ofList (Nat.toDigits 16 n)

/-- One character inside quotes: tab, line ends, the null character and the backslash have
escapes of their own, `delimiter` is escaped, and an unprintable character is written by number. -/
def escapeChar (delimiter c : Char) : String :=
  match c with
  | '\t' => "\\t"
  | '\r' => "\\r"
  | '\n' => "\\n"
  | '\x00' => "\\0"
  | '\\' => "\\\\"
  | c =>
    if c = delimiter then String.ofList ['\\', c]
    else if isPrintable c then String.ofList [c]
    else "\\u\x7b" ++ hexDigits c.toNat ++ "\x7d"

/-- A text between double quotes. -/
def quote (s : String) : String :=
  "\"" ++ String.join (s.toList.map (escapeChar '"')) ++ "\""

/-- A character between single quotes. -/
def quoteChar (c : Char) : String := "'" ++ escapeChar '\'' c ++ "'"

/-- Texts with a comma and a blank between them. -/
def listing (parts : List String) : String := ", ".intercalate parts

/-- At most the first 64 characters of a text. -/
def excerpt (s : String) : String := String.ofList (s.toList.take 64)

example : quote "a\"b\\'\n" = "\"a\\\"b\\\\'\\n\"" := by decide +kernel

example : quote "\u007f\u2028é" = "\"\\u\x7b7f\x7d\\u\x7b2028\x7dé\"" := by decide +kernel

example : quoteChar '\'' = "'\\''" := by decide +kernel

end Rim.Text
