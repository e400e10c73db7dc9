import Rim.Binary64.Basic

/-!
# The shortest decimal of a double

* `Decimal`: digits and a power of ten.
* `Binary64.shortest`: of the decimals that round to a double, one with the fewest digits, and of
  those the nearest.

The reals that round to `m · 2 ^ e` form an interval whose ends belong to it exactly when `m` is
even. If a decimal grid has a point in it, so has one of the two grid points around the value, so
only those are tried, for 1, 2, … 17 digits.
-/

namespace Rim

/-- The number `digits · 10 ^ exponent`. -/
structure Decimal where
  digits : Nat
  exponent : Int
  deriving DecidableEq, Repr

/-- Which neighbour is taken of a value half-way between two decimals of the fewest digits. -/
inductive Tie where
  /-- The larger magnitude. -/
  | up
  /-- The one with the even last digit. -/
  | even
  deriving DecidableEq, Repr

namespace Binary64

/-- `num / den` compared with `digits · 10 ^ exponent`, both sides multiplied out. -/
def compareDecimal (num den : Nat) (d : Decimal) : Ordering :=
  if 0 ≤ d.exponent then compare num (d.digits * Nat.pow 10 d.exponent.toNat * den)
  else compare (num * Nat.pow 10 (-d.exponent).toNat) (d.digits * den)

/-- The ends of the interval that rounds to a finite positive double, over one denominator: twice
the gap to the next double on each side is one unit of `4 · den`, and half of it below a power of
two, whose lower neighbours lie closer. -/
def interval (x : Binary64) : Nat × Nat × Nat :=
  let (num, den) := x.ratio
  let gap := num / x.significand
  let below := if x.fraction = 0 ∧ 1 < x.exponentField then gap else 2 * gap
  (4 * num - below, 4 * num + 2 * gap, 4 * den)

/-- Whether a decimal rounds to the double. -/
def roundsFrom (x : Binary64) (d : Decimal) : Bool :=
  let (low, high, den) := x.interval
  let closed := x.significand % 2 = 0
  (match compareDecimal low den d with
    | .lt => true
    | .eq => closed
    | .gt => false) &&
  (match compareDecimal high den d with
    | .gt => true
    | .eq => closed
    | .lt => false)

/-- The largest `k` with `10 ^ k ≤ num / den`, found by steps of one from a guess by binary size. -/
def decimalExponent (num den : Nat) : Int :=
  let guess : Int := ((Nat.log2 num : Int) - Nat.log2 den) * 30103 / 100000 - 1
  let reached (k : Int) : Bool := compareDecimal num den ⟨1, k⟩ != .lt
  if reached (guess + 2) then guess + 2
  else if reached (guess + 1) then guess + 1
  else guess

/-- The grid point at or below `num / den`, for the grid of the given power of ten. -/
def gridFloor (num den : Nat) (exponent : Int) : Nat :=
  if 0 ≤ exponent then num / (den * Nat.pow 10 exponent.toNat)
  else num * Nat.pow 10 (-exponent).toNat / den

/-- The nearer of the grid points `d` and `d + 1` to `num / den`, compared at their middle. -/
def nearer (tie : Tie) (num den : Nat) (d : Nat) (exponent : Int) : Nat :=
  match compareDecimal (2 * num) den ⟨2 * d + 1, exponent⟩ with
  | .lt => d
  | .gt => d + 1
  | .eq => match tie with
    | .up => d + 1
    | .even => d + d % 2

/-- The best decimal of the double on one grid, if any point of the grid rounds to it. -/
def onGrid (tie : Tie) (x : Binary64) (exponent : Int) : Option Decimal :=
  let (num, den) := x.ratio
  let d := gridFloor num den exponent
  match roundsFrom x ⟨d, exponent⟩, roundsFrom x ⟨d + 1, exponent⟩ with
  | true, true => some ⟨nearer tie num den d exponent, exponent⟩
  | true, false => some ⟨d, exponent⟩
  | false, true => some ⟨d + 1, exponent⟩
  | false, false => none

/-- Moves zeros at the end of the digits into the exponent, at most `fuel` of them. -/
def trim : (fuel : Nat) → Decimal → Decimal
  | 0, d => d
  | fuel + 1, d =>
    if d.digits ≠ 0 ∧ d.digits % 10 = 0 then trim fuel ⟨d.digits / 10, d.exponent + 1⟩ else d

/-- A shortest decimal of a finite double's magnitude. Seventeen digits are always enough. -/
def shortest (tie : Tie) (x : Binary64) : Decimal :=
  if x.isZero then ⟨0, 0⟩
  else
    let (num, den) := x.ratio
    let top := decimalExponent num den
    match (List.range 17).findSome? fun n : Nat => onGrid tie x (top - n) with
    | some d => trim 18 d
    | none => trim 18 ⟨gridFloor num den (top - 16), top - 16⟩

example : shortest .even ⟨0x3fb999999999999a⟩ = ⟨1, -1⟩ := by decide +kernel

example : shortest .even ⟨1⟩ = ⟨5, -324⟩ := by decide +kernel

example : shortest .even ⟨0x7fefffffffffffff⟩ = ⟨17976931348623157, 292⟩ := by decide +kernel

example : shortest .even ⟨0x3e60000000000000⟩ = ⟨29802322387695312, -24⟩ ∧
    shortest .up ⟨0x3e60000000000000⟩ = ⟨29802322387695313, -24⟩ := by decide +kernel

end Binary64

end Rim
