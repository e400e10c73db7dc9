import Rim.Bytes
import Rim.Text.Quoted

/-!
# Hexadecimal text

* `Hex.encode`: two lower-case digits for each octet.
* `Hex.decode`: reads digits of either case; an odd count is reported before any wrong digit.
-/

namespace Rim.Hex

/-- Why a text is not hexadecimal. -/
inductive Error where
  /-- The text has an odd number of octets. -/
  | oddLength
  /-- The octet `byte` at `offset` is no digit. -/
  | invalidDigit (byte : UInt8) (offset : Nat)
  deriving DecidableEq, Repr

/-- The text of a reading error; an octet is shown as the character of its number. -/
def Error.message : Error → String
  | .oddLength => "Odd number of digits"
  | .invalidDigit byte offset =>
    s!"Invalid character {Text.quoteChar (Char.ofNat byte.toNat)} at position {offset}"

/-- The lower-case digit of a number below sixteen. -/
def digit (n : Nat) : Char :=
  if n < 10 then Char.ofNat (n + '0'.toNat) else Char.ofNat (n - 10 + 'a'.toNat)

/-- The value of a digit of either case, given by its octet. -/
def value? (b : UInt8) : Option Nat :=
  let n := b.toNat
  if 0x30 ≤ n ∧ n ≤ 0x39 then some (n - 0x30)
  else if 0x41 ≤ n ∧ n ≤ 0x46 then some (n - 0x41 + 10)
  else if 0x61 ≤ n ∧ n ≤ 0x66 then some (n - 0x61 + 10)
  else none

/-- The digits of one octet. -/
def octet (b : UInt8) : List Char := [digit (b.toNat / 16), digit (b.toNat % 16)]

/-- Two lower-case digits for each octet. -/
def encode (bs : Bytes) : String := String.ofList (bs.flatMap octet)

/-- The digit at `offset`. -/
def readDigit (b : UInt8) (offset : Nat) : Except Error Nat :=
  match value? b with
  | some n => .ok n
  | none => .error (.invalidDigit b offset)

/-- Reads pairs of digits from `offset` on; a single last digit stands for nothing. -/
def decodePairs : (offset : Nat) → Bytes → Except Error Bytes
  | offset, a :: b :: rest => do
    let high ← readDigit a offset
    let low ← readDigit b (offset + 1)
    return UInt8.ofNat (16 * high + low) :: (← decodePairs (offset + 2) rest)
  | _, _ => .ok []

/-- Reads a text of digit pairs. -/
def decode (s : String) : Except Error Bytes :=
  let bs := Bytes.ofString s
  if bs.length % 2 = 0 then decodePairs 0 bs else .error .oddLength

end Rim.Hex
