import Rim.Time.Calendar

/-!
# Day numbers and dates

* `Date.toDays_ofDays`: the date of a day number has that day number.
* `Date.isValid_ofDays`: it is a date of the calendar.

A day number is taken apart into 400-year eras, centuries, cycles of four years, years from March to
February, and days. The last day of a cycle and the last day of an era are leap days.
-/

namespace Rim.Date

/-! ## Days of an era -/

/-- A day of an era, by century, four-year cycle, year and day of the year. -/
structure EraDay (dayOfEra century cycle year day : Int) : Prop where
  century_mem : 0 ≤ century ∧ century ≤ 3
  cycle_mem : 0 ≤ cycle ∧ cycle ≤ 24
  year_mem : 0 ≤ year ∧ year ≤ 3
  day_nonneg : 0 ≤ day
  /-- Day 365 is a leap day, which ends a cycle, but not the last of a century unless of the era. -/
  day_le : day ≤ 364 ∨ day = 365 ∧ year = 3 ∧ (cycle ≤ 23 ∨ century = 3)
  total : dayOfEra = 36524 * century + 1461 * cycle + 365 * year + day

theorem exists_eraDay {dayOfEra : Int} (hlow : 0 ≤ dayOfEra) (hhigh : dayOfEra < 146097) :
    ∃ century cycle year day, EraDay dayOfEra century cycle year day := by
  -- The two leap days that plain division would count to the next century or year.
  by_cases hera : dayOfEra = 146096
  · exact ⟨3, 24, 3, 365, by omega, by omega, by omega, by omega, by omega, by omega⟩
  · by_cases hcycle : dayOfEra % 36524 % 1461 = 1460
    · exact ⟨dayOfEra / 36524, dayOfEra % 36524 / 1461, 3, 365, by omega, by omega, by omega,
        by omega, by omega, by omega⟩
    · exact ⟨dayOfEra / 36524, dayOfEra % 36524 / 1461, dayOfEra % 36524 % 1461 / 365,
        dayOfEra % 36524 % 1461 % 365, by omega, by omega, by omega, by omega, by omega, by omega⟩

/-- The year of an era that the day number of the era gives. -/
theorem EraDay.yearOfEra_eq {dayOfEra century cycle year day : Int}
    (h : EraDay dayOfEra century cycle year day) :
    (dayOfEra - dayOfEra / 1460 + dayOfEra / 36524 - dayOfEra / 146096) / 365 =
      100 * century + 4 * cycle + year := by
  obtain ⟨hcentury, hcycle, hyear, hday, hleap, htotal⟩ := h
  have hcycles : dayOfEra / 1460 = 25 * century + cycle ∨
      dayOfEra / 1460 = 25 * century + cycle + 1 := by omega
  by_cases hlast : dayOfEra = 146096
  · omega
  · have hera : dayOfEra / 146096 = 0 := by omega
    have hcenturies : dayOfEra / 36524 = century := by omega
    rw [hera, hcenturies]
    rcases hcycles with h | h <;> omega

/-! ## Dates -/

/-- What `ofDays` makes of a day number: a year from March on, and a month and a day of it. -/
structure MarchDate (days : Int) (d : Date) (year dayOfYear month : Int) : Prop where
  day_mem : 0 ≤ dayOfYear ∧ dayOfYear ≤ 365
  /-- Day 365 is the leap day at the end of the year. -/
  leap : dayOfYear = 365 →
    (year + 1) % 4 = 0 ∧ ((year + 1) % 100 ≠ 0 ∨ (year + 1) % 400 = 0)
  month_eq : month = (5 * dayOfYear + 2) / 153
  total : days + epochOffset = 365 * year + year / 4 - year / 100 + year / 400 + dayOfYear
  year_eq : d.year = year + (if 10 ≤ month then 1 else 0)
  dateMonth_eq : (d.month : Int) = if month < 10 then month + 3 else month - 9
  dateDay_eq : (d.day : Int) = dayOfYear - (153 * month + 2) / 5 + 1

/-- The days of whole years of an era. -/
theorem EraDay.dayOfYear_eq {dayOfEra century cycle year day : Int}
    (h : EraDay dayOfEra century cycle year day) {yearOfEra : Int}
    (hyear : yearOfEra = 100 * century + 4 * cycle + year) :
    dayOfEra - (365 * yearOfEra + yearOfEra / 4 - yearOfEra / 100) = day := by
  obtain ⟨hcentury, hcycle, hy, hday, hleap, htotal⟩ := h
  have hfour : yearOfEra / 4 = 25 * century + cycle := by omega
  have hhundred : yearOfEra / 100 = century := by omega
  rw [hfour, hhundred]
  omega

/-- The days of whole years and eras. -/
theorem EraDay.total_eq {dayOfEra century cycle year day : Int}
    (h : EraDay dayOfEra century cycle year day) (era : Int) {total : Int}
    (htotal : total = 146097 * era + dayOfEra) {years : Int}
    (hyears : years = 100 * century + 4 * cycle + year + era * 400) :
    total = 365 * years + years / 4 - years / 100 + years / 400 + day := by
  obtain ⟨hcentury, hcycle, hy, hday, hleap, hdays⟩ := h
  have hfour : years / 4 = 25 * century + cycle + era * 100 := by omega
  have hhundred : years / 100 = century + era * 4 := by omega
  have hera : years / 400 = era := by omega
  rw [hfour, hhundred, hera]
  omega

/-- A leap day ends a leap year. -/
theorem EraDay.leap_eq {dayOfEra century cycle year day : Int}
    (h : EraDay dayOfEra century cycle year day) (hday : day = 365) (era : Int) {next : Int}
    (hnext : next = 100 * century + 4 * cycle + year + era * 400 + 1) :
    next % 4 = 0 ∧ (next % 100 ≠ 0 ∨ next % 400 = 0) := by
  obtain ⟨hcentury, hcycle, hy, -, hleap, -⟩ := h
  refine ⟨by omega, ?_⟩
  by_cases hlast : cycle = 24
  · exact Or.inr (by omega)
  · exact Or.inl (by omega)

theorem exists_marchDate (days : Int) :
    ∃ year dayOfYear month, MarchDate days (ofDays days) year dayOfYear month := by
  generalize hshift : days + epochOffset = z
  have hlow : 0 ≤ z % 146097 := by omega
  have hhigh : z % 146097 < 146097 := by omega
  have htotal : z = 146097 * (z / 146097) + z % 146097 := by omega
  obtain ⟨century, cycle, y, day, h⟩ := exists_eraDay hlow hhigh
  have hyear := h.yearOfEra_eq
  have hday := h.dayOfYear_eq rfl
  have hdate : ofDays days =
      { year := 100 * century + 4 * cycle + y + z / 146097 * 400 +
          (if 10 ≤ (5 * day + 2) / 153 then 1 else 0)
        month := (if (5 * day + 2) / 153 < 10 then (5 * day + 2) / 153 + 3
          else (5 * day + 2) / 153 - 9).toNat
        day := (day - (153 * ((5 * day + 2) / 153) + 2) / 5 + 1).toNat } := by
    unfold ofDays
    simp only [hshift, hyear, hday]
  have hdayLow := h.day_nonneg
  have hdayHigh : day ≤ 365 := by
    rcases h.day_le with h | h <;> omega
  refine ⟨100 * century + 4 * cycle + y + z / 146097 * 400, day, (5 * day + 2) / 153, ?_⟩
  rw [hdate]
  refine ⟨⟨hdayLow, hdayHigh⟩, fun hleap => h.leap_eq hleap (z / 146097) rfl, rfl, ?_, rfl, ?_, ?_⟩
  · rw [hshift]
    exact h.total_eq (z / 146097) htotal rfl
  · show ((if (5 * day + 2) / 153 < 10 then (5 * day + 2) / 153 + 3
      else (5 * day + 2) / 153 - 9).toNat : Int) = _
    split <;> omega
  · show ((day - (153 * ((5 * day + 2) / 153) + 2) / 5 + 1).toNat : Int) = _
    omega

/-- The date of a day number has that day number. -/
theorem toDays_ofDays (days : Int) : (ofDays days).toDays = days := by
  obtain ⟨year, dayOfYear, month, h⟩ := exists_marchDate days
  obtain ⟨hday, -, hmonth, htotal, hyear, hdateMonth, hdateDay⟩ := h
  unfold toDays
  generalize (ofDays days).year = y at *
  generalize (ofDays days).month = m at *
  generalize (ofDays days).day = d at *
  by_cases hlate : 10 ≤ month
  · -- January and February belong to the year that began in the March before.
    simp only [hlate, if_true] at hyear
    rw [if_neg (by omega)] at hdateMonth
    have hm : m ≤ 2 := by omega
    have hshift : ((m + 9) % 12 : Nat) = month := by omega
    simp only [hm, if_true, hshift]
    omega
  · simp only [hlate, if_false] at hyear
    rw [if_pos (by omega)] at hdateMonth
    have hm : ¬ m ≤ 2 := by omega
    have hshift : ((m + 9) % 12 : Nat) = month := by omega
    simp only [hm, if_false, hshift]
    omega

/-- The day after 28 February is in the year if its March year has a day 365. -/
theorem isLeapYear_of_marchDate {days : Int} {d : Date} {year dayOfYear month : Int}
    (h : MarchDate days d year dayOfYear month) (hlate : 10 ≤ month) (hleap : dayOfYear = 365) :
    isLeapYear d.year = true := by
  have hyear := h.year_eq
  rw [if_pos hlate] at hyear
  obtain ⟨hfour, hhundred⟩ := h.leap hleap
  simp only [isLeapYear, hyear, Bool.and_eq_true, Bool.or_eq_true, decide_eq_true_eq]
  exact ⟨hfour, hhundred⟩

/-- The date of a day number is a date of the calendar. -/
theorem isValid_ofDays (days : Int) : (ofDays days).isValid = true := by
  obtain ⟨year, dayOfYear, month, h⟩ := exists_marchDate days
  have hleap := isLeapYear_of_marchDate h
  obtain ⟨hday, -, hmonth, -, -, hdateMonth, hdateDay⟩ := h
  generalize hdate : ofDays days = date at *
  have hmonths : 0 ≤ month ∧ month ≤ 11 := by omega
  have hrange : 1 ≤ date.month ∧ date.month ≤ 12 ∧ 1 ≤ date.day := by
    by_cases hlate : month < 10
    · rw [if_pos hlate] at hdateMonth
      omega
    · rw [if_neg hlate] at hdateMonth
      omega
  have hdays : date.day ≤ daysInMonth date.year date.month := by
    unfold daysInMonth
    -- Only February asks for the year: its last day is day 364, or day 365 of a leap year.
    by_cases hfebruary : date.month = 2
    · rw [if_pos hfebruary]
      by_cases hlast : dayOfYear = 365
      · rw [hleap (by split at hdateMonth <;> omega) hlast, if_pos rfl]
        split at hdateMonth <;> omega
      · have hshort : date.day ≤ 28 := by split at hdateMonth <;> omega
        split <;> omega
    · rw [if_neg hfebruary]
      split
      · split at hdateMonth <;> omega
      · split at hdateMonth <;> omega
  simp only [isValid, Bool.and_eq_true, decide_eq_true_eq]
  exact ⟨⟨⟨hrange.1, hrange.2.1⟩, hrange.2.2⟩, hdays⟩

end Rim.Date
