import Rim.Text.Split

/-!
# Decimal digits and pieces between separators

* `Text.readNat?_toDigits`: the decimal digits of a number spell it.
* `Text.head_toDigits_ne_zero`: they begin with a zero only if that is the number.
* `Text.split_eq_splitOn`, `Text.mem_intercalate`: pieces between separators.
-/

namespace Rim.Text

/-- The number gathered from digits. -/
theorem foldl_digitValue (s : List Char) (acc : Nat) :
    s.foldl (fun n c => 10 * n + digitValue c) acc = Nat.ofDigitChars 10 s acc := rfl

theorem readNat?_of_digits {s : List Char} (hne : s ≠ []) (h : ∀ c ∈ s, c.isDigit = true) :
    readNat? s = some (Nat.ofDigitChars 10 s 0) := by
  have hall : s.all Char.isDigit = true := List.all_eq_true.2 h
  have hempty : s.isEmpty = false := by simpa using hne
  simp [readNat?, hall, hempty, foldl_digitValue]

/-- The texts that spell a number. -/
theorem readNat?_eq_some_iff {s : List Char} {n : Nat} :
    readNat? s = some n ↔
      s ≠ [] ∧ (∀ c ∈ s, c.isDigit = true) ∧ Nat.ofDigitChars 10 s 0 = n := by
  constructor
  · intro h
    unfold readNat? at h
    split at h
    next hdigits =>
      simp only [Bool.and_eq_true, Bool.not_eq_true', List.isEmpty_eq_false_iff,
        List.all_eq_true] at hdigits
      exact ⟨hdigits.1, hdigits.2, Option.some.inj h⟩
    next => cases h
  · rintro ⟨hne, hdigits, rfl⟩
    exact readNat?_of_digits hne hdigits

theorem isDigit_of_mem_toDigits {c : Char} {n : Nat} (h : c ∈ Nat.toDigits 10 n) :
    c.isDigit = true :=
  Nat.isDigit_of_mem_toDigits (by decide) (by decide) h

/-- The decimal digits of a number spell it. -/
theorem readNat?_toDigits (n : Nat) : readNat? (Nat.toDigits 10 n) = some n := by
  rw [readNat?_of_digits Nat.toDigits_ne_nil fun c hc => isDigit_of_mem_toDigits hc,
    Nat.ofDigitChars_ten_toDigits]

/-- The first digit of a number from one on is no zero. -/
theorem head_toDigits_ne_zero {n : Nat} (h : n ≠ 0) (s : List Char) :
    Nat.toDigits 10 n ≠ '0' :: s := by
  induction n using Nat.strongRecOn generalizing s with
  | ind n ih =>
    rw [Nat.toDigits_eq_if (by decide)]
    split
    next hlt =>
      intro heq
      have hdigit : ∀ k < 10, k ≠ 0 → Nat.digitChar k ≠ '0' := by decide
      exact hdigit n hlt h (by simpa using (List.cons.inj heq).1)
    next hge =>
      have hdiv : n / 10 ≠ 0 := by omega
      cases hhead : Nat.toDigits 10 (n / 10) with
      | nil => exact absurd hhead Nat.toDigits_ne_nil
      | cons c others =>
        intro heq
        obtain ⟨rfl, -⟩ := List.cons.inj heq
        exact ih (n / 10) (by omega) hdiv others hhead

/-! ## Pieces -/

/-- The pieces of a text are those of the library's list function. -/
theorem split_eq_splitOn (sep : Char) (s : List Char) : split sep s = s.splitOn sep := by
  induction s with
  | nil => simp [split]
  | cons c rest ih =>
    rw [List.splitOn_cons_eq_if_modifyHead, split, ih]
    by_cases hc : c = sep
    · simp [hc]
    · have hne := List.splitOn_ne_nil sep rest
      cases hpieces : rest.splitOn sep with
      | nil => exact absurd hpieces hne
      | cons piece pieces => simp [hc]

/-- A character of pieces between separators is a separator or one of a piece. -/
theorem mem_intercalate {sep c : Char} : ∀ {pieces : List (List Char)},
    c ∈ [sep].intercalate pieces → c = sep ∨ ∃ piece ∈ pieces, c ∈ piece
  | [], h => by simp at h
  | [piece], h => by
    rw [List.intercalate_singleton] at h
    exact Or.inr ⟨piece, by simp, h⟩
  | piece :: next :: rest, h => by
    rw [List.intercalate_cons_cons, List.mem_append, List.mem_append, List.mem_singleton] at h
    rcases h with (h | h) | h
    · exact Or.inr ⟨piece, by simp, h⟩
    · exact Or.inl h
    · rcases mem_intercalate h with h | ⟨p, hp, hc⟩
      · exact Or.inl h
      · exact Or.inr ⟨p, List.mem_cons_of_mem _ hp, hc⟩

end Rim.Text
