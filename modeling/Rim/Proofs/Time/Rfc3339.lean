import Rim.Proofs.Octets
import Rim.Proofs.Text.Decimal
import Rim.Proofs.Time.Calendar
import Rim.Time.Rfc3339

/-!
# RFC 3339 text is read back in the years 0 to 9999

* `Instant.InFourDigits`: the year of an instant has four digits.
* `Rfc3339.parse_render`: the text of a whole second of such a year is read as the instant.
* `Rfc3339.parse_render_error`: the text of any other year is not read at all, for it begins with a
  sign.
-/

namespace Rim

namespace Instant

/-- The years that are written without a sign. -/
def InFourDigits (t : Instant) : Prop := 0 ≤ t.date.year ∧ t.date.year ≤ 9999

instance (t : Instant) : Decidable t.InFourDigits := inferInstanceAs (Decidable (_ ∧ _))

/-! ## Padded numbers -/

theorem toList_padded (width n : Nat) :
    (padded width n).toList =
      List.replicate (width - (Nat.toDigits 10 n).length) '0' ++ Nat.toDigits 10 n := by
  have hlength : n.repr.length = (Nat.toDigits 10 n).length := by
    rw [← String.length_toList, Nat.toList_repr]
  simp [padded, hlength]

theorem isDigit_of_mem_padded {c : Char} {width n : Nat} (h : c ∈ (padded width n).toList) :
    c.isDigit = true := by
  rw [toList_padded, List.mem_append] at h
  rcases h with h | h
  · obtain ⟨-, rfl⟩ := List.mem_replicate.1 h
    decide
  · exact Text.isDigit_of_mem_toDigits h

theorem length_toList_padded {width n : Nat} (hwidth : 0 < width) (h : n < 10 ^ width) :
    (padded width n).toList.length = width := by
  have hle := (Nat.length_toDigits_le_iff (by decide) hwidth).2 h
  rw [toList_padded, List.length_append, List.length_replicate]
  omega

/-- The number that a padded text spells. -/
theorem ofDigitChars_padded (width n : Nat) :
    Nat.ofDigitChars 10 (padded width n).toList 0 = n := by
  rw [toList_padded, Nat.ofDigitChars_append, Nat.ofDigitChars_replicate_zero, Nat.mul_zero,
    Nat.ofDigitChars_ten_toDigits]

end Instant

namespace Rfc3339

open Instant

/-! ## Digits -/

theorem isDigit_range {c : Char} (h : c.isDigit = true) : 48 ≤ c.toNat ∧ c.toNat ≤ 57 := by
  simp only [Char.isDigit, Bool.and_eq_true, decide_eq_true_eq] at h
  exact ⟨h.1, h.2⟩

theorem digit?_ofNat {c : Char} (h : c.isDigit = true) :
    digit? (UInt8.ofNat c.toNat) = some (c.toNat - '0'.toNat) := by
  obtain ⟨hlow, hhigh⟩ := isDigit_range h
  have hvalue : (UInt8.ofNat c.toNat).toNat = c.toNat := by
    simp only [UInt8.toNat_ofNat', Nat.reducePow]
    omega
  have hmem : 0x30 ≤ UInt8.ofNat c.toNat ∧ UInt8.ofNat c.toNat ≤ 0x39 := by
    simp only [UInt8.le_iff_toNat_le, hvalue]
    exact ⟨hlow, hhigh⟩
  rw [digit?, if_pos hmem, hvalue]
  rfl

/-- Digits are gathered to the last one. -/
theorem digits_append {cs : List Char} (h : ∀ c ∈ cs, c.isDigit = true) (acc : Nat)
    (rest : Bytes) :
    digits cs.length acc ((cs.map fun c => UInt8.ofNat c.toNat) ++ rest) =
      .ok (Nat.ofDigitChars 10 cs acc, rest) := by
  induction cs generalizing acc with
  | nil => rfl
  | cons c others ih =>
    rw [Nat.ofDigitChars_cons, ← ih fun d hd => h d (by simp [hd])]
    simp [digits, digit?_ofNat (h c (by simp))]

/-- A padded number is read. -/
theorem digits_padded {width n : Nat} (hwidth : 0 < width) (h : n < 10 ^ width) (rest : Bytes) :
    digits width 0 (Bytes.ofString (padded width n) ++ rest) = .ok (n, rest) := by
  have hdigits : ∀ c ∈ (padded width n).toList, c.isDigit = true :=
    fun c hc => isDigit_of_mem_padded hc
  have hascii : ∀ c ∈ (padded width n).toList, c.toNat < 128 := by
    intro c hc
    have := isDigit_range (hdigits c hc)
    omega
  have hread := digits_append hdigits 0 rest
  rw [length_toList_padded hwidth h, ofDigitChars_padded] at hread
  rw [← String.ofList_toList (s := padded width n), Bytes.ofString_ascii hascii]
  exact hread

theorem length_ofString_padded {width n : Nat} (hwidth : 0 < width) (h : n < 10 ^ width) :
    (Bytes.ofString (padded width n)).length = width := by
  have hascii : ∀ c ∈ (padded width n).toList, c.toNat < 128 := by
    intro c hc
    have := isDigit_range (isDigit_of_mem_padded hc)
    omega
  rw [← String.ofList_toList (s := padded width n), Bytes.ofString_ascii hascii, List.length_map,
    length_toList_padded hwidth h]

/-! ## The text of an instant -/

/-- The octets of the offset `+00:00`. -/
def zeroOffset : Bytes := [0x2b, 0x30, 0x30, 0x3a, 0x30, 0x30]

/-- The octets of a time, part by part. -/
theorem ofString_render (t : Instant) :
    Bytes.ofString (render t) =
      Bytes.ofString (yearText t.date.year) ++ 0x2d :: (Bytes.ofString (padded 2 t.date.month) ++
        0x2d :: (Bytes.ofString (padded 2 t.date.day) ++ 0x54 ::
          (Bytes.ofString (padded 2 t.clock.1) ++ 0x3a ::
            (Bytes.ofString (padded 2 t.clock.2.1) ++ 0x3a ::
              (Bytes.ofString (padded 2 t.clock.2.2) ++ zeroOffset))))) := by
  have hdash : Bytes.ofString "-" = [0x2d] := by decide
  have hseparator : Bytes.ofString "T" = [0x54] := by decide
  have hcolon : Bytes.ofString ":" = [0x3a] := by decide
  have hoffset : Bytes.ofString "+00:00" = zeroOffset := by decide
  simp [render, dateText, clockText, toString, hdash, hseparator, hcolon, hoffset]

/-- The parts of a time of day. -/
theorem clock_lt (t : Instant) (hwhole : t.nanos = 0) :
    t.clock.1 < 24 ∧ t.clock.2.1 < 60 ∧ t.clock.2.2 < 60 ∧
      (t.clock.1 * 3600 + t.clock.2.1 * 60 + t.clock.2.2 : Nat) = t.seconds % perDay := by
  have hlow : 0 ≤ t.seconds % perDay := Int.emod_nonneg _ (by decide)
  have hhigh : t.seconds % perDay < 86400 := Int.emod_lt_of_pos _ (by decide)
  simp only [clock, hwhole, Nat.zero_div, Nat.add_zero]
  omega

theorem yearText_eq {t : Instant} (hyear : t.InFourDigits) :
    yearText t.date.year = padded 4 t.date.year.toNat := by
  exact if_pos hyear

/-- Months and days of dates have two digits. -/
theorem date_lt (t : Instant) : t.date.month < 10 ^ 2 ∧ t.date.day < 10 ^ 2 := by
  have hvalid := Date.isValid_ofDays (t.seconds / perDay)
  simp only [Date.isValid, Bool.and_eq_true, decide_eq_true_eq] at hvalid
  obtain ⟨⟨⟨-, hmonth⟩, -⟩, hday⟩ := hvalid
  have hdays : ∀ year month, Date.daysInMonth year month ≤ 31 := by
    intro year month
    unfold Date.daysInMonth
    split
    · split <;> omega
    · split <;> omega
  have := hdays t.date.year t.date.month
  show (Date.ofDays (t.seconds / perDay)).month < 100 ∧ (Date.ofDays (t.seconds / perDay)).day < 100
  exact ⟨by omega, Nat.lt_of_le_of_lt (hday.trans (hdays _ _)) (by omega)⟩

/-- A text whose parts are read as a date and a time of day, without a fraction and at no offset. -/
theorem parse_of_parts {s : String} {y mo d h mi se : Bytes}
    {year month day hour minute second : Nat}
    (hs : Bytes.ofString s = y ++ 0x2d :: (mo ++ 0x2d :: (d ++ 0x54 :: (h ++ 0x3a ::
      (mi ++ 0x3a :: (se ++ zeroOffset))))))
    (hlength : ¬ (Bytes.ofString s).length < 19)
    (hyear : ∀ rest, digits 4 0 (y ++ rest) = .ok (year, rest))
    (hmonth : ∀ rest, digits 2 0 (mo ++ rest) = .ok (month, rest))
    (hday : ∀ rest, digits 2 0 (d ++ rest) = .ok (day, rest))
    (hhour : ∀ rest, digits 2 0 (h ++ rest) = .ok (hour, rest))
    (hminute : ∀ rest, digits 2 0 (mi ++ rest) = .ok (minute, rest))
    (hsecond : ∀ rest, digits 2 0 (se ++ rest) = .ok (second, rest))
    (hvalid : (⟨year, month, day⟩ : Date).isValid = true)
    (hclock : hour < 24 ∧ minute < 60 ∧ second < 60) :
    parse s = .ok ⟨(⟨year, month, day⟩ : Date).toDays * perDay +
      (hour * 3600 + minute * 60 + second : Nat), 0⟩ := by
  have hfraction : fraction zeroOffset = .ok (0, zeroOffset) := rfl
  have hoffset : offset zeroOffset = .ok (0, []) := by rfl
  have hinside : ¬ (23 < hour ∨ 59 < minute ∨ 60 < second) := by omega
  have hnoLeap : ¬ second = 60 := by omega
  have hday' : ¬ perDay ≤ ((0 : Int).natAbs : Int) := by decide
  rw [hs] at hlength
  unfold parse
  simp only [hs, if_neg hlength, hyear, hmonth, hday, hhour, hminute, hsecond, hvalid, hfraction,
    hoffset, bind, Except.bind, expect, dash, colon, separator, beq_self_eq_true, Bool.true_or,
    if_true, if_neg hinside, if_neg hnoLeap, if_neg hday', List.isEmpty_nil, Nat.sub_zero,
    Int.sub_zero, Nat.zero_mul, Nat.add_zero]
  rfl

/-- The text of a whole second of a year of four digits is read as the instant. -/
theorem parse_render {t : Instant} (hyear : t.InFourDigits) (hwhole : t.nanos = 0) :
    parse (render t) = .ok t := by
  obtain ⟨hmonth, hday⟩ := date_lt t
  obtain ⟨hhour, hminute, hsecond, hclock⟩ := clock_lt t hwhole
  have hdigits : t.date.year.toNat < 10 ^ 4 := by
    have := hyear.2
    omega
  -- The date that is read is the date of the day, and the day with its clock is the instant.
  have hdate : (⟨(t.date.year.toNat : Int), t.date.month, t.date.day⟩ : Date) = t.date := by
    rw [Int.toNat_of_nonneg hyear.1]
  have hdays : t.date.toDays = t.seconds / perDay := Date.toDays_ofDays (t.seconds / perDay)
  have hsum : t.seconds / perDay * perDay + t.seconds % perDay = t.seconds := by
    rw [Int.mul_comm]
    exact Int.mul_ediv_add_emod t.seconds perDay
  have hinstant : (⟨t.seconds, 0⟩ : Instant) = t := by rw [← hwhole]
  have htext := ofString_render t
  rw [yearText_eq hyear] at htext
  -- The reader refuses texts that are too short before it looks at them.
  have hlength : ¬ (Bytes.ofString (render t)).length < 19 := by
    rw [htext]
    simp only [List.length_append, List.length_cons,
      length_ofString_padded (by decide : 0 < 4) hdigits,
      length_ofString_padded (by decide : 0 < 2) hmonth,
      length_ofString_padded (by decide : 0 < 2) hday,
      length_ofString_padded (by decide : 0 < 2) (show t.clock.1 < 10 ^ 2 by omega),
      length_ofString_padded (by decide : 0 < 2) (show t.clock.2.1 < 10 ^ 2 by omega),
      length_ofString_padded (by decide : 0 < 2) (show t.clock.2.2 < 10 ^ 2 by omega)]
    omega
  have hparse := parse_of_parts htext hlength (digits_padded (by decide) hdigits)
    (digits_padded (by decide) hmonth) (digits_padded (by decide) hday)
    (digits_padded (by decide) (by omega)) (digits_padded (by decide) (by omega))
    (digits_padded (by decide) (by omega))
    (by rw [hdate]; exact Date.isValid_ofDays (t.seconds / perDay)) ⟨hhour, hminute, hsecond⟩
  rw [hparse, hdate, hdays, hclock, hsum, hinstant]

/-- The text of another year begins with a sign, so it is not read. -/
theorem parse_render_error {t : Instant} (hyear : ¬ t.InFourDigits) :
    ∃ e, parse (render t) = .error e := by
  have hplus : Bytes.ofString "+" = [0x2b] := by decide
  have hminus : Bytes.ofString "-" = [0x2d] := by decide
  obtain ⟨sign, rest, htext, hsign⟩ : ∃ sign rest,
      Bytes.ofString (render t) = sign :: rest ∧ digit? sign = none := by
    have hsigned : yearText t.date.year =
        (if t.date.year < 0 then "-" else "+") ++ padded 4 t.date.year.natAbs := if_neg hyear
    rw [ofString_render, hsigned]
    by_cases hnegative : t.date.year < 0
    · exact ⟨0x2d, _, by simp [hnegative, hminus]; rfl, rfl⟩
    · exact ⟨0x2b, _, by simp [hnegative, hplus]; rfl, rfl⟩
  have hdigits : digits 4 0 (sign :: rest) = .error .invalid := by simp [digits, hsign]
  unfold parse
  simp only [htext, hdigits, bind, Except.bind]
  -- Short or not, the text is refused at its first octet at the latest.
  by_cases hshort : (sign :: rest).length < 19
  · exact ⟨.tooShort, by rw [if_pos hshort]; rfl⟩
  · exact ⟨.invalid, by rw [if_neg hshort]⟩

end Rfc3339

end Rim
