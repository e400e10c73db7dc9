import Rim.Time.Calendar

/-!
# Instants

Points in time on the UTC scale with a nanosecond part.

* `Instant`: seconds since 1970 and nanoseconds; a nanosecond part of a thousand million or more
  stands for a leap second that follows the given second.
* `Instant.ofTimestamp?`: the instants of the supported range.
* `Instant.truncate`: drops the fraction of a second.
* `Instant.display`: the text used in messages.
-/

namespace Rim

/-- A point in time. -/
structure Instant where
  seconds : Int
  nanos : Nat
  deriving DecidableEq, Repr

namespace Instant

/-- Nanoseconds of a second. -/
def perSecond : Nat := 1000000000

/-- The first and the last supported second: the years -262143 to 262142. -/
def minSeconds : Int := -8334601228800

def maxSeconds : Int := 8210266876799

/-- The instant of a timestamp. The nanosecond part may exceed a second only in the last second of
a minute. -/
def ofTimestamp? (seconds : Int) (nanos : Nat) : Option Instant :=
  if minSeconds ≤ seconds ∧ seconds ≤ maxSeconds ∧
      (nanos < perSecond ∨ (nanos < 2 * perSecond ∧ seconds % 60 = 59)) then
    some ⟨seconds, nanos⟩
  else none

/-- Drops the fraction. A leap second stays one, so its nanosecond part stays a whole second. -/
def truncate (t : Instant) : Instant := ⟨t.seconds, t.nanos - t.nanos % perSecond⟩

/-- Order in time; a leap second comes after the second it follows. -/
def isBefore (t u : Instant) : Bool :=
  t.seconds < u.seconds || (t.seconds = u.seconds && t.nanos < u.nanos)

/-! ## Fields -/

/-- Seconds of a day. -/
def perDay : Int := 86400

def date (t : Instant) : Date := Date.ofDays (t.seconds / perDay)

/-- Hour, minute and second of the day; the second of a leap second is 60. -/
def clock (t : Instant) : Nat × Nat × Nat :=
  let s := (t.seconds % perDay).toNat
  (s / 3600, s / 60 % 60, s % 60 + t.nanos / perSecond)

/-! ## Text -/

/-- A number in decimal digits, with zeros in front up to the width. -/
def padded (width n : Nat) : String :=
  let digits := toString n
  String.ofList (List.replicate (width - digits.length) '0') ++ digits

/-- A year in four digits; outside 0 to 9999 a sign stands in front. -/
def yearText (year : Int) : String :=
  if 0 ≤ year ∧ year ≤ 9999 then padded 4 year.toNat
  else (if year < 0 then "-" else "+") ++ padded 4 year.natAbs

def dateText (d : Date) : String := s!"{yearText d.year}-{padded 2 d.month}-{padded 2 d.day}"

def clockText (t : Instant) : String :=
  let (hour, minute, second) := t.clock
  s!"{padded 2 hour}:{padded 2 minute}:{padded 2 second}"

/-- The fraction of a second in 3, 6 or 9 digits, as few as are exact; none for a whole second. -/
def fractionText (t : Instant) : String :=
  let n := t.nanos % perSecond
  if n = 0 then ""
  else if n % 1000000 = 0 then s!".{padded 3 (n / 1000000)}"
  else if n % 1000 = 0 then s!".{padded 6 (n / 1000)}"
  else s!".{padded 9 n}"

/-- The text used in messages. -/
def display (t : Instant) : String :=
  s!"{dateText t.date} {t.clockText}{t.fractionText} UTC"

end Instant

end Rim
