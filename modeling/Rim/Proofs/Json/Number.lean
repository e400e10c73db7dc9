import Rim.Json.Numeral
import Rim.Proofs.Text.Decimal

/-!
# JSON integers are read back

* `Json.Stops`: what may follow a value: nothing, a comma or a closing bracket.
* `Json.Number.IsInteger`: the numbers of 64 bits that are written as integers.
* `Json.Number.read_render`: such a number is read from the front of its text.
-/

namespace Rim.Json

/-- Nothing, or something that cannot go on with a number. -/
def Stops (rest : List Char) : Prop := ∀ c s, rest = c :: s → c = ',' ∨ c = ']' ∨ c = '}'

theorem stops_nil : Stops [] := by
  intro c s h
  simp at h

theorem stops_cons {c : Char} (h : c = ',' ∨ c = ']' ∨ c = '}') (s : List Char) :
    Stops (c :: s) := by
  intro d t hd
  obtain ⟨rfl, -⟩ : c = d ∧ s = t := by simpa using hd
  exact h

namespace Number

/-- Integers of 64 bits, the negative ones below zero. -/
def IsInteger : Number → Prop
  | .natural _ => True
  | .negative n => n.toInt < 0
  | .double _ => False

/-! ## Digits -/

theorem ofDigitChars_le (s : List Char) (acc : Nat) : acc ≤ Nat.ofDigitChars 10 s acc := by
  induction s generalizing acc with
  | nil => simp
  | cons c rest ih =>
    rw [Nat.ofDigitChars_cons]
    have := ih (10 * acc + (c.toNat - '0'.toNat))
    omega

/-- Nothing is gathered of a rest that is no digit. -/
theorem gather_stops {rest : List Char} (h : Stops rest) (significand count : Nat) :
    gather significand count rest = (significand, count, rest) := by
  cases rest with
  | nil => rfl
  | cons c s =>
    rcases h c s rfl with rfl | rfl | rfl <;> rfl

/-- Digits of a number that fits are gathered to the last one. -/
theorem gather_append {ds : List Char} (hdigits : ∀ c ∈ ds, c.isDigit = true) {rest : List Char}
    (hrest : Stops rest) (acc count : Nat) (hfits : Nat.ofDigitChars 10 ds acc < UInt64.size) :
    gather acc count (ds ++ rest) =
      (Nat.ofDigitChars 10 ds acc, count + ds.length, rest) := by
  induction ds generalizing acc count with
  | nil => simp [gather_stops hrest]
  | cons c others ih =>
    rw [Nat.ofDigitChars_cons] at hfits ⊢
    have hle := ofDigitChars_le others (10 * acc + (c.toNat - '0'.toNat))
    have hfit : fits acc c = true := by
      have hlt : 10 * acc + (c.toNat - '0'.toNat) < UInt64.size := by omega
      exact decide_eq_true hlt
    rw [List.cons_append, gather, hdigits c (by simp), hfit, Bool.and_self, if_pos rfl]
    have hothers := ih (fun d hd => hdigits d (by simp [hd])) (10 * acc + (c.toNat - '0'.toNat))
      (count + 1) hfits
    rw [List.length_cons, Nat.add_comm others.length 1, ← Nat.add_assoc]
    exact hothers

theorem countDigits_stops {rest : List Char} (h : Stops rest) : countDigits rest = (0, rest) := by
  cases rest with
  | nil => rfl
  | cons c s =>
    rcases h c s rfl with rfl | rfl | rfl <;> rfl

/-! ## Numbers -/

/-- Nothing that is no digit, point or exponent changes an integer. -/
theorem afterInteger_stops {rest : List Char} (h : Stops rest) (isNegative : Bool)
    (significand : Nat) :
    afterInteger isNegative significand 0 rest =
      if !isNegative then some (.natural (UInt64.ofNat significand), rest)
      else if significand = 0 || 0x8000000000000000 < significand then
        some (.double (Binary64.ofNat significand).negate, rest)
      else some (.negative (Int64.ofInt (-significand)), rest) := by
  cases rest with
  | nil => simp [afterInteger]
  | cons c s =>
    rcases h c s rfl with rfl | rfl | rfl <;> simp [afterInteger]

/-- The digits of a number are read as the number. -/
theorem unsigned_toDigits {n : Nat} (hn : n < UInt64.size) {rest : List Char} (hrest : Stops rest)
    (isNegative : Bool) :
    unsigned isNegative (Nat.toDigits 10 n ++ rest) = afterInteger isNegative n 0 rest := by
  by_cases hzero : n = 0
  · subst hzero
    rw [Nat.toDigits_zero]
    cases rest with
    | nil => rfl
    | cons c s =>
      rcases hrest c s rfl with rfl | rfl | rfl <;> rfl
  · cases hdigits : Nat.toDigits 10 n with
    | nil => exact absurd hdigits Nat.toDigits_ne_nil
    | cons c others =>
      have hall : ∀ d ∈ c :: others, d.isDigit = true := by
        intro d hd
        exact Text.isDigit_of_mem_toDigits (hdigits ▸ hd)
      have hfirst : c ≠ '0' := by
        rintro rfl
        exact Text.head_toDigits_ne_zero hzero others hdigits
      have hvalue : Nat.ofDigitChars 10 (c :: others) 0 = n := by
        rw [← hdigits, Nat.ofDigitChars_ten_toDigits]
      have hgather := gather_append hall hrest 0 0 (by rw [hvalue]; exact hn)
      rw [hvalue, List.cons_append] at hgather
      rw [List.cons_append, unsigned]
      · simp [hall c (by simp), hgather, countDigits_stops hrest]
      · exact hfirst

/-- The sign in front of a negative number. -/
theorem toList_toString_neg {n : Int} (h : n < 0) :
    (toString n).toList = '-' :: Nat.toDigits 10 n.natAbs := by
  obtain ⟨m, rfl⟩ : ∃ m : Nat, n = Int.negSucc m := by
    cases n with
    | ofNat m => exact absurd h (by simp)
    | negSucc m => exact ⟨m, rfl⟩
  show ("-" ++ (Nat.repr (m + 1))).toList = _
  simp [String.toList_append]

/-- An integer is read from the front of its text. -/
theorem read_render {n : Number} (h : n.IsInteger) {rest : List Char} (hrest : Stops rest) :
    read (n.render.toList ++ rest) = some (n, rest) := by
  cases n with
  | natural k =>
    have hk := k.toNat_lt
    -- The reader looks for a sign first, and no digit is one.
    have hsign : ∀ s, Nat.toDigits 10 k.toNat ++ rest ≠ '-' :: s := by
      intro s heq
      cases hdigits : Nat.toDigits 10 k.toNat with
      | nil => exact absurd hdigits Nat.toDigits_ne_nil
      | cons c others =>
        rw [hdigits] at heq
        have hfirst : c.isDigit = true :=
          Text.isDigit_of_mem_toDigits (n := k.toNat) (by simp [hdigits])
        obtain ⟨rfl, -⟩ := List.cons.inj heq
        exact absurd hfirst (by decide)
    have hdigits : (render (.natural k)).toList = Nat.toDigits 10 k.toNat := Nat.toList_repr
    rw [hdigits, read]
    · rw [unsigned_toDigits hk hrest, afterInteger_stops hrest]
      simp
    · exact hsign
  | negative k =>
    have hneg : k.toInt < 0 := h
    have hlow := k.le_toInt
    have hdigits : (render (.negative k)).toList = '-' :: Nat.toDigits 10 k.toInt.natAbs :=
      toList_toString_neg hneg
    have habs : k.toInt.natAbs < UInt64.size := by
      have : UInt64.size = 18446744073709551616 := rfl
      omega
    -- The two magnitudes that are read as floating-point numbers: none is that of `k`.
    have hzero : k.toInt.natAbs ≠ 0 := by omega
    have hbound : ¬ 0x8000000000000000 < k.toInt.natAbs := by omega
    have hback : Int64.ofInt (-(k.toInt.natAbs : Int)) = k := by
      rw [show -(k.toInt.natAbs : Int) = k.toInt by omega, Int64.ofInt_toInt]
    rw [hdigits, List.cons_append, read, unsigned_toDigits habs hrest, afterInteger_stops hrest]
    simp only [hback, hzero, hbound, Bool.not_true, Bool.false_eq_true, if_false, decide_false,
      Bool.or_self]
  | double x => exact absurd h id

end Number

end Rim.Json
