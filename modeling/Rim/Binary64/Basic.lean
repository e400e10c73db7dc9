/-!
# Double-precision numbers

Floating-point numbers as their 64 bits, with arithmetic that is exact in `Nat` and rounds once.

* `Binary64`: the bit pattern; `sign`, `exponentField`, `fraction` are its three fields.
* `Binary64.ofRatio`: the double nearest to a quotient, ties to the even neighbour.
* `Binary64.mul`, `Binary64.div`: products and quotients of finite magnitudes.
* `Binary64.equals`: numeric equality, under which the two zeros agree and no NaN equals anything.
-/

namespace Rim

/-- A double-precision number in the interchange format: sign, 11 bits of exponent, 52 bits of
fraction. -/
structure Binary64 where
  bits : UInt64
  deriving DecidableEq, Repr

namespace Binary64

/-! ## Fields -/

/-- The place of the sign. -/
def signBit : Nat := 0x8000000000000000

/-- The place of the leading bit of a normal number, just above the fraction. -/
def leadingBit : Nat := 0x10000000000000

/-- The place of the bit that tells quiet NaNs from signalling ones, the highest of the fraction. -/
def quietBit : Nat := 0x8000000000000

/-- The number with the given fields. -/
def ofFields (sign : Bool) (exponentField fraction : Nat) : Binary64 :=
  ⟨UInt64.ofNat ((if sign then signBit else 0) + exponentField * leadingBit + fraction)⟩

/-- The sign bit; set for negative numbers and for the negative zero. -/
def sign (x : Binary64) : Bool := signBit ≤ x.bits.toNat

/-- The biased exponent. -/
def exponentField (x : Binary64) : Nat := x.bits.toNat / leadingBit % 2048

/-- The fraction below the leading bit. -/
def fraction (x : Binary64) : Nat := x.bits.toNat % leadingBit

def isNaN (x : Binary64) : Bool := x.exponentField = 2047 && x.fraction ≠ 0

def isInfinite (x : Binary64) : Bool := x.exponentField = 2047 && x.fraction = 0

def isZero (x : Binary64) : Bool := x.exponentField = 0 && x.fraction = 0

def zero : Binary64 := ⟨0⟩

/-- The quiet NaN without payload. -/
def nan : Binary64 := ofFields false 2047 quietBit

def infinity : Binary64 := ofFields false 2047 0

/-- The number with the other sign. -/
def negate (x : Binary64) : Binary64 := ofFields (!x.sign) x.exponentField x.fraction

/-- Numeric equality. -/
def equals (x y : Binary64) : Bool :=
  !x.isNaN && !y.isNaN && (x == y || (x.isZero && y.isZero))

/-! ## Value -/

/-- The whole number `m` of a finite magnitude `m · 2 ^ e`. -/
def significand (x : Binary64) : Nat :=
  if x.exponentField = 0 then x.fraction else leadingBit + x.fraction

/-- The exponent `e` of a finite magnitude `m · 2 ^ e`. -/
def exponent (x : Binary64) : Int := max x.exponentField 1 - 1075

/-- The finite magnitude as a quotient of naturals. -/
def ratio (x : Binary64) : Nat × Nat :=
  if 0 ≤ x.exponent then (x.significand <<< x.exponent.toNat, 1)
  else (x.significand, 1 <<< (-x.exponent).toNat)

/-! ## Rounding -/

/-- A quotient rounded to the nearest natural, a half to the even one. -/
def roundHalfEven (num den : Nat) : Nat :=
  let q := num / den
  let r := num % den
  if 2 * r < den then q
  else if 2 * r = den then q + q % 2
  else q + 1

/-- `num / den · 2 ^ (-e)` as a quotient of naturals. -/
def shifted (num den : Nat) (e : Int) : Nat × Nat :=
  if 0 ≤ e then (num, den <<< e.toNat) else (num <<< (-e).toNat, den)

/-- The exponent at which the quotient has 53 bits before its point, or the least exponent. -/
def unitExponent (num den : Nat) : Int :=
  let guess : Int := (Nat.log2 num : Int) - Nat.log2 den - 52
  let (n, d) := shifted num den guess
  -- The sizes of the two numbers give the exponent or the one above it.
  let exact := if n / d < leadingBit then guess - 1 else guess
  max exact (-1074)

/-- The magnitude `q · 2 ^ e` for a rounded `q` of at most 53 bits, or of one more after a carry. -/
def assemble (q : Nat) (e : Int) : Binary64 :=
  if q < leadingBit then ofFields false 0 q
  else
    let packed := (e + 1075).toNat * leadingBit + (q - leadingBit)
    if 2047 * leadingBit ≤ packed then infinity else ⟨UInt64.ofNat packed⟩

/-- The double nearest to `num / den`; quotients beyond the largest double give infinity. -/
def ofRatio (num den : Nat) : Binary64 :=
  if num = 0 then zero
  else
    let e := unitExponent num den
    let (n, d) := shifted num den e
    assemble (roundHalfEven n d) e

/-- The double nearest to a natural number. -/
def ofNat (n : Nat) : Binary64 := ofRatio n 1

/-- The rounded product of two finite magnitudes. -/
def mul (x y : Binary64) : Binary64 :=
  ofRatio (x.ratio.1 * y.ratio.1) (x.ratio.2 * y.ratio.2)

/-- The rounded quotient of two finite magnitudes, the second not zero. -/
def div (x y : Binary64) : Binary64 :=
  ofRatio (x.ratio.1 * y.ratio.2) (x.ratio.2 * y.ratio.1)

/-- Whether a magnitude is at most one. -/
def atMostOne (x : Binary64) : Bool := !x.sign && x.bits ≤ 0x3ff0000000000000

example : ofRatio 1 10 = ⟨0x3fb999999999999a⟩ := by decide +kernel

example : ofRatio 1 (2 ^ 1074) = ⟨1⟩ ∧ ofRatio 1 (2 ^ 1075) = zero := by decide +kernel

example : ofNat (2 ^ 53 + 1) = ofNat (2 ^ 53) ∧ ofNat (2 ^ 1024) = infinity := by decide +kernel

end Binary64

end Rim
