import Rim.Bytes
import Rim.Time.Basic

/-!
# Times as RFC 3339 text

* `Rfc3339.render`: an instant to the second, with the offset `+00:00`.
* `Rfc3339.parse`: a date, a time and an offset, read from left to right; the first defect is
  reported. Years have exactly four digits here, so years that are written with a sign do not
  read back.
-/

namespace Rim.Rfc3339

/-- Why a text is no time. -/
inductive Error where
  /-- The text ends too early. -/
  | tooShort
  /-- A character that may not stand where it does. -/
  | invalid
  /-- A date, time or offset that does not exist. -/
  | outOfRange
  /-- Something follows the offset. -/
  | tooLong
  deriving DecidableEq, Repr

/-- The text of a reading error. -/
def Error.message : Error → String
  | .tooShort => "premature end of input"
  | .invalid => "input contains invalid characters"
  | .outOfRange => "input is out of range"
  | .tooLong => "trailing input"

/-- The time to the second. -/
def render (t : Instant) : String :=
  s!"{Instant.dateText t.date}T{t.clockText}+00:00"

/-! ## Reading -/

/-- The value of a digit's octet. -/
def digit? (b : UInt8) : Option Nat :=
  if 0x30 ≤ b ∧ b ≤ 0x39 then some (b.toNat - 0x30) else none

/-- A number of exactly `count` digits. -/
def digits : (count : Nat) → (acc : Nat) → Bytes → Except Error (Nat × Bytes)
  | 0, acc, rest => .ok (acc, rest)
  | _ + 1, _, [] => .error .tooShort
  | count + 1, acc, b :: rest =>
    match digit? b with
    | some d => digits count (10 * acc + d) rest
    | none => .error .invalid

/-- One octet of a given set. -/
def expect (accepts : UInt8 → Bool) : Bytes → Except Error Bytes
  | [] => .error .tooShort
  | b :: rest => if accepts b then .ok rest else .error .invalid

def dash (b : UInt8) : Bool := b == 0x2d

def colon (b : UInt8) : Bool := b == 0x3a

/-- Date and time are separated by a `T` of either case or a blank. -/
def separator (b : UInt8) : Bool := b == 0x54 || b == 0x74 || b == 0x20

/-- Nanoseconds: the first nine digits, with zeros for those that are missing. -/
def nanosOf (fraction : List Nat) : Nat :=
  ((fraction ++ List.replicate 9 0).take 9).foldl (fun n d => 10 * n + d) 0

/-- The digits in front of the first octet that is none. -/
def spanDigits : Bytes → List Nat × Bytes
  | [] => ([], [])
  | b :: rest =>
    match digit? b with
    | some d => let (ds, rest) := spanDigits rest; (d :: ds, rest)
    | none => ([], b :: rest)

/-- An optional point with at least one digit. -/
def fraction : Bytes → Except Error (Nat × Bytes)
  | 0x2e :: rest =>
    match spanDigits rest with
    | ([], []) => .error .tooShort
    | ([], _ :: _) => .error .invalid
    | (ds, rest) => .ok (nanosOf ds, rest)
  | rest => .ok (0, rest)

/-- Two digits of an offset; a missing octet is reported before a wrong one. -/
def offsetPair : Bytes → Except Error (Nat × Nat × Bytes)
  | a :: b :: rest =>
    match digit? a, digit? b with
    | some x, some y => .ok (x, y, rest)
    | _, _ => .error .invalid
  | _ => .error .tooShort

/-- Hours and minutes of an offset in seconds; minutes of 60 and more do not exist. -/
def offsetMagnitude (bs : Bytes) : Except Error (Int × Bytes) := do
  let (h₁, h₂, bs) ← offsetPair bs
  let bs ← expect colon bs
  let (m₁, m₂, bs) ← offsetPair bs
  if 6 ≤ m₁ then throw .outOfRange
  return (((10 * h₁ + h₂) * 3600 + (10 * m₁ + m₂) * 60 : Nat), bs)

/-- The offset in seconds: `Z`, or a sign with hours and minutes. The sign may be the typographic
minus. -/
def offset : Bytes → Except Error (Int × Bytes)
  | [] => .error .tooShort
  | 0x5a :: rest => .ok (0, rest)
  | 0x7a :: rest => .ok (0, rest)
  | 0x2b :: rest => offsetMagnitude rest
  | 0x2d :: rest => do let (n, rest) ← offsetMagnitude rest; return (-n, rest)
  | 0xe2 :: 0x88 :: 0x92 :: rest => do let (n, rest) ← offsetMagnitude rest; return (-n, rest)
  | _ => .error .invalid

/-- Reads a time. A second of 60 is the leap second after second 59. -/
def parse (s : String) : Except Error Instant := do
  let bs := Bytes.ofString s
  if bs.length < 19 then throw .tooShort
  let (year, bs) ← digits 4 0 bs
  let bs ← expect dash bs
  let (month, bs) ← digits 2 0 bs
  let bs ← expect dash bs
  let (day, bs) ← digits 2 0 bs
  let date : Date := ⟨year, month, day⟩
  -- A date that does not exist is reported before the time is looked at.
  unless date.isValid do throw .outOfRange
  let bs ← expect separator bs
  let (hour, bs) ← digits 2 0 bs
  let bs ← expect colon bs
  let (minute, bs) ← digits 2 0 bs
  let bs ← expect colon bs
  let (second, bs) ← digits 2 0 bs
  let (nanos, bs) ← fraction bs
  if 23 < hour ∨ 59 < minute ∨ 60 < second then throw .outOfRange
  let (ahead, bs) ← offset bs
  unless bs.isEmpty do throw .tooLong
  if Instant.perDay ≤ ahead.natAbs then throw .outOfRange
  -- A leap second is counted into the nanoseconds, beyond a whole second.
  let leap := if second = 60 then 1 else 0
  let clock : Int := (hour * 3600 + minute * 60 + (second - leap) : Nat)
  return ⟨date.toDays * Instant.perDay + clock - ahead, nanos + leap * Instant.perSecond⟩

end Rim.Rfc3339
