import Rim.Json.Basic
import Rim.Text.Split

/-!
# Reading JSON numbers

* `Json.Number.read`: a number from the front of a text.

Digits are gathered into a significand of 64 bits. A digit that no longer fits is not looked at:
before the point it only raises the exponent, after the point it is dropped. A number with a point,
an exponent or too many digits becomes a double by one conversion and one multiplication or
division by a power of ten, so it may miss the nearest double by a little. Numbers too large for a
double are refused.
-/

namespace Rim.Json.Number

/-! ## Doubles -/

/-- The largest power of ten among the doubles. -/
def maxPower : Nat := 308

/-- The double nearest to a power of ten. -/
def powerOfTen (k : Nat) : Binary64 := Binary64.ofNat (Nat.pow 10 k)

/-- Divides by the largest power of ten until the exponent is in reach or nothing is left. -/
def scaleDown : (steps : Nat) → Binary64 → (exponent : Nat) → Binary64
  | 0, f, exponent => f.div (powerOfTen exponent)
  | steps + 1, f, exponent =>
    if exponent ≤ maxPower then f.div (powerOfTen exponent)
    else if f.isZero then f
    else scaleDown steps (f.div (powerOfTen maxPower)) (exponent - maxPower)

/-- The double of a significand and a power of ten. -/
def toDouble? (isNegative : Bool) (significand : Nat) (exponent : Int) : Option Binary64 :=
  let f := Binary64.ofNat significand
  let signed (x : Binary64) : Binary64 := if isNegative then x.negate else x
  if 0 ≤ exponent then
    if exponent.toNat ≤ maxPower then
      let x := f.mul (powerOfTen exponent.toNat)
      if x.isInfinite then none else some (signed x)
    else if f.isZero then some (signed f)
    else none
  else some (signed (scaleDown (exponent.natAbs / maxPower) f exponent.natAbs))

/-! ## Digits -/

/-- Whether another digit still fits into the significand. -/
def fits (significand : Nat) (c : Char) : Bool := 10 * significand + Text.digitValue c < UInt64.size

/-- Digits gathered into a significand until one no longer fits: the significand, the number of
digits taken, and the rest. -/
def gather : (significand count : Nat) → List Char → Nat × Nat × List Char
  | significand, count, [] => (significand, count, [])
  | significand, count, c :: rest =>
    if c.isDigit && fits significand c then
      gather (10 * significand + Text.digitValue c) (count + 1) rest
    else (significand, count, c :: rest)

/-- The number of digits in front, and the rest. -/
def countDigits (s : List Char) : Nat × List Char :=
  ((s.takeWhile Char.isDigit).length, s.dropWhile Char.isDigit)

/-- The largest exponent that is looked at. -/
def exponentLimit : Nat := 0x7fffffff

/-- The digits of an exponent. One that is too large leaves nothing of a number, or too much. -/
def exponentDigits (isNegative : Bool) (significand : Nat) (shift : Int) (down : Bool)
    (s : List Char) : Option (Number × List Char) :=
  match Text.readNat? (s.takeWhile Char.isDigit) with
  | none => none
  | some n =>
    let rest := s.dropWhile Char.isDigit
    if n ≤ exponentLimit then do
      let x ← toDouble? isNegative significand (if down then shift - n else shift + n)
      return (.double x, rest)
    else if significand ≠ 0 && !down then none
    else some (.double (if isNegative then Binary64.zero.negate else Binary64.zero), rest)

/-- An optional exponent and the end of a double. -/
def finish (isNegative : Bool) (significand : Nat) (shift : Int) (s : List Char) :
    Option (Number × List Char) :=
  let exponent (rest : List Char) :=
    match rest with
    | '+' :: rest => exponentDigits isNegative significand shift false rest
    | '-' :: rest => exponentDigits isNegative significand shift true rest
    | rest => exponentDigits isNegative significand shift false rest
  match s with
  | 'e' :: rest => exponent rest
  | 'E' :: rest => exponent rest
  | rest => do
    let x ← toDouble? isNegative significand shift
    return (.double x, rest)

/-- The digits after a point; there has to be one. `shift` is the exponent gathered before it. -/
def afterPoint (isNegative : Bool) (significand : Nat) (shift : Int) (s : List Char) :
    Option (Number × List Char) :=
  match s with
  | [] => none
  | c :: _ =>
    if !c.isDigit then none
    else
      let (significand, count, rest) := gather significand 0 s
      finish isNegative significand (shift - count) (countDigits rest).2

/-- The number after its integer digits, of which `dropped` did not fit. -/
def afterInteger (isNegative : Bool) (significand dropped : Nat) (s : List Char) :
    Option (Number × List Char) :=
  match s with
  | '.' :: rest => afterPoint isNegative significand dropped rest
  | 'e' :: _ => finish isNegative significand dropped s
  | 'E' :: _ => finish isNegative significand dropped s
  | rest =>
    if dropped ≠ 0 then finish isNegative significand dropped rest
    else if !isNegative then some (.natural (UInt64.ofNat significand), rest)
    -- The negative zero and magnitudes beyond 64 signed bits are floating-point numbers.
    else if significand = 0 || 0x8000000000000000 < significand then
      some (.double (Binary64.ofNat significand).negate, rest)
    else some (.negative (Int64.ofInt (-significand)), rest)

/-- The digits of a number without its sign. A zero in front stands alone. -/
def unsigned (isNegative : Bool) : List Char → Option (Number × List Char)
  | [] => none
  | '0' :: rest =>
    match rest with
    | c :: _ => if c.isDigit then none else afterInteger isNegative 0 0 rest
    | [] => afterInteger isNegative 0 0 rest
  | c :: rest =>
    if !c.isDigit then none
    else
      let (significand, _, rest) := gather 0 0 (c :: rest)
      let (dropped, rest) := countDigits rest
      afterInteger isNegative significand dropped rest

/-- Reads a number from the front of a text. -/
def read : List Char → Option (Number × List Char)
  | '-' :: rest => unsigned true rest
  | s => unsigned false s

end Rim.Json.Number
