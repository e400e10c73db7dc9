/-!
# The proleptic Gregorian calendar

Days counted from 1 January 1970, and the dates they are.

* `Date`: year, month and day.
* `Date.toDays`, `Date.ofDays`: the day number of a date, and the date of a day number.

Both count years from March, so that the leap day is the last day of a year: month `m` of such a
year begins on day `(153 · m + 2) / 5`, and 400 years have 146097 days.
-/

namespace Rim

/-- A calendar date. Years before the first are counted down through zero. -/
structure Date where
  year : Int
  month : Nat
  day : Nat
  deriving DecidableEq, Repr

namespace Date

def isLeapYear (year : Int) : Bool := year % 4 = 0 && (year % 100 ≠ 0 || year % 400 = 0)

/-- The number of days of a month. -/
def daysInMonth (year : Int) (month : Nat) : Nat :=
  if month = 2 then (if isLeapYear year then 29 else 28)
  else if month = 4 ∨ month = 6 ∨ month = 9 ∨ month = 11 then 30
  else 31

/-- Whether month and day exist in the year. -/
def isValid (d : Date) : Bool :=
  1 ≤ d.month && d.month ≤ 12 && 1 ≤ d.day && d.day ≤ daysInMonth d.year d.month

/-- Days from 1 March of year 0 to 1 January 1970. -/
def epochOffset : Int := 719468

/-- The day number of a date. -/
def toDays (d : Date) : Int :=
  -- March is month 0; January and February belong to the year before.
  let year := if d.month ≤ 2 then d.year - 1 else d.year
  let month := (d.month + 9) % 12
  365 * year + year / 4 - year / 100 + year / 400
    + ((153 * month + 2) / 5 + d.day - 1 : Int) - epochOffset

/-- The date of a day number. -/
def ofDays (days : Int) : Date :=
  let z := days + epochOffset
  let era := z / 146097
  let dayOfEra := z % 146097
  -- The leap days before the day are taken out, so that every year has 365 days.
  let yearOfEra :=
    (dayOfEra - dayOfEra / 1460 + dayOfEra / 36524 - dayOfEra / 146096) / 365
  let dayOfYear := dayOfEra - (365 * yearOfEra + yearOfEra / 4 - yearOfEra / 100)
  let month := (5 * dayOfYear + 2) / 153
  let day := dayOfYear - (153 * month + 2) / 5 + 1
  { year := yearOfEra + era * 400 + (if 10 ≤ month then 1 else 0)
    month := (if month < 10 then month + 3 else month - 9).toNat
    day := day.toNat }

example : (Date.mk 1970 1 1).toDays = 0 ∧ (Date.mk 2000 3 1).toDays = 11017 := by decide

example : ofDays 0 = ⟨1970, 1, 1⟩ ∧ ofDays (-719529) = ⟨-1, 12, 31⟩ := by decide

end Date

end Rim
