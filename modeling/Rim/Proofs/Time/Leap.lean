import Rim.Proofs.Outcome
import Rim.Time.Rfc3339

/-!
# Leap seconds in texts

* `Instant.IsLeap`: the instants inside a leap second.
* `Rfc3339.NamesLeap`: the texts with a second of 60.
* `Rfc3339.isLeap_iff_of_parse`: these texts are read as instants inside a leap second, and all
  others as instants of an ordinary second.
-/

namespace Rim

/-- The instant lies in the leap second that follows its second. -/
def Instant.IsLeap (t : Instant) : Prop := perSecond ≤ t.nanos

instance (t : Instant) : Decidable t.IsLeap := inferInstanceAs (Decidable (_ ≤ _))

namespace Rfc3339

/-- The text has a second of 60: its octets 17 and 18 are these digits. -/
def NamesLeap (s : String) : Prop := ((Bytes.ofString s).drop 17).take 2 = [0x36, 0x30]

instance (s : String) : Decidable (NamesLeap s) := inferInstanceAs (Decidable (_ = _))

/-! ## Digits -/

theorem digit?_cases {b : UInt8} {d : Nat} (h : digit? b = some d) :
    d ≤ 9 ∧ b.toNat = 48 + d := by
  unfold digit? at h
  split at h
  next hrange =>
    have hlow : 48 ≤ b.toNat := hrange.1
    have hhigh : b.toNat ≤ 57 := hrange.2
    have hd : b.toNat - 48 = d := Option.some.inj h
    omega
  next => cases h

/-- A number of some digits takes as many octets. -/
theorem digits_drop {count acc n : Nat} {bs rest : Bytes}
    (h : digits count acc bs = .ok (n, rest)) : bs.drop count = rest := by
  induction count generalizing acc bs with
  | zero => exact (Prod.mk.inj (Except.ok.inj h)).2
  | succ count ih =>
    cases bs with
    | nil => cases h
    | cons b others =>
      simp only [digits] at h
      split at h
      next d hd => exact ih h
      next => cases h

theorem expect_drop {accepts : UInt8 → Bool} {bs rest : Bytes}
    (h : expect accepts bs = .ok rest) : bs.drop 1 = rest := by
  cases bs with
  | nil => cases h
  | cons b others =>
    simp only [expect] at h
    split at h
    · exact Except.ok.inj h
    · cases h

/-- Two digits make 60 exactly if they are these. -/
theorem digits_two_eq_sixty_iff {n : Nat} {bs rest : Bytes} (h : digits 2 0 bs = .ok (n, rest)) :
    n = 60 ↔ bs.take 2 = [0x36, 0x30] := by
  match bs with
  | [] => cases h
  | [a] =>
    simp only [digits] at h
    split at h <;> cases h
  | a :: b :: others =>
    simp only [digits] at h
    split at h
    next x hx =>
      split at h
      next y hy =>
        obtain ⟨hx, ha⟩ := digit?_cases hx
        obtain ⟨hy, hb⟩ := digit?_cases hy
        obtain ⟨rfl, -⟩ := Prod.mk.inj (Except.ok.inj h)
        have hsix : (0x36 : UInt8).toNat = 54 := rfl
        have hzero : (0x30 : UInt8).toNat = 48 := rfl
        simp only [List.take_succ_cons, List.take_zero, List.cons.injEq, and_true,
          ← UInt8.toNat_inj, ha, hb]
        omega
      next => cases h
    next => cases h

/-! ## Fractions -/

theorem spanDigits_le (bs : Bytes) : ∀ d ∈ (spanDigits bs).1, d ≤ 9 := by
  induction bs with
  | nil => simp [spanDigits]
  | cons b rest ih =>
    unfold spanDigits
    split
    next d hd =>
      intro e he
      rcases List.mem_cons.1 he with rfl | he
      · exact (digit?_cases hd).1
      · exact ih e he
    next => simp

/-- Nine digits make less than a second. -/
theorem nanosOf_lt {ds : List Nat} (h : ∀ d ∈ ds, d ≤ 9) : nanosOf ds < Instant.perSecond := by
  have hall : ∀ d ∈ (ds ++ List.replicate 9 0).take 9, d ≤ 9 := by
    intro d hd
    rcases List.mem_append.1 (List.mem_of_mem_take hd) with hd | hd
    · exact h d hd
    · rw [List.eq_of_mem_replicate hd]
      omega
  have hlength : ((ds ++ List.replicate 9 0).take 9).length = 9 := by simp
  unfold nanosOf
  generalize (ds ++ List.replicate 9 0).take 9 = nine at hall hlength
  match nine, hlength with
  | [a, b, c, d, e, f, g, h, i], _ =>
    have hnine := List.forall_iff_forall_mem.2 hall
    simp only [List.Forall] at hnine
    simp only [List.foldl_cons, List.foldl_nil, Instant.perSecond]
    omega

theorem fraction_lt {bs rest : Bytes} {n : Nat} (h : fraction bs = .ok (n, rest)) :
    n < Instant.perSecond := by
  unfold fraction at h
  split at h
  next others =>
    split at h
    · cases h
    · cases h
    next ds after hspan =>
      obtain ⟨rfl, -⟩ := Prod.mk.inj (Except.ok.inj h)
      have hdigits := spanDigits_le others
      rw [hspan] at hdigits
      exact nanosOf_lt hdigits
  next =>
    obtain ⟨rfl, -⟩ := Prod.mk.inj (Except.ok.inj h)
    decide

/-! ## Whole texts -/

/-- What has been read of a text has a second, which stands behind 17 octets, and a fraction. -/
theorem parse_cases {s : String} {t : Instant} (h : parse s = .ok t) :
    ∃ second rest nanos after, digits 2 0 ((Bytes.ofString s).drop 17) = .ok (second, rest) ∧
      fraction rest = .ok (nanos, after) ∧
      t.nanos = nanos + (if second = 60 then 1 else 0) * Instant.perSecond := by
  unfold parse at h
  dsimp only at h
  obtain ⟨-, h⟩ := Except.if_throw_eq_ok_iff.1 h
  -- What is read in front of the second takes a fixed number of octets.
  obtain ⟨⟨year, rest⟩, hread, h⟩ := Except.bind_eq_ok_iff.1 h
  obtain rfl := digits_drop hread
  obtain ⟨rest, hread, h⟩ := Except.bind_eq_ok_iff.1 h
  obtain rfl := expect_drop hread
  obtain ⟨⟨month, rest⟩, hread, h⟩ := Except.bind_eq_ok_iff.1 h
  obtain rfl := digits_drop hread
  obtain ⟨rest, hread, h⟩ := Except.bind_eq_ok_iff.1 h
  obtain rfl := expect_drop hread
  obtain ⟨⟨day, rest⟩, hread, h⟩ := Except.bind_eq_ok_iff.1 h
  obtain rfl := digits_drop hread
  obtain ⟨-, h⟩ := Except.unless_throw_eq_ok_iff.1 h
  obtain ⟨rest, hread, h⟩ := Except.bind_eq_ok_iff.1 h
  obtain rfl := expect_drop hread
  obtain ⟨⟨hour, rest⟩, hread, h⟩ := Except.bind_eq_ok_iff.1 h
  obtain rfl := digits_drop hread
  obtain ⟨rest, hread, h⟩ := Except.bind_eq_ok_iff.1 h
  obtain rfl := expect_drop hread
  obtain ⟨⟨minute, rest⟩, hread, h⟩ := Except.bind_eq_ok_iff.1 h
  obtain rfl := digits_drop hread
  obtain ⟨rest, hread, h⟩ := Except.bind_eq_ok_iff.1 h
  obtain rfl := expect_drop hread
  obtain ⟨⟨second, rest⟩, hsecond, h⟩ := Except.bind_eq_ok_iff.1 h
  obtain ⟨⟨nanos, after⟩, hfraction, h⟩ := Except.bind_eq_ok_iff.1 h
  simp only [List.drop_drop] at hsecond
  refine ⟨second, rest, nanos, after, hsecond, hfraction, ?_⟩
  -- What follows is checked, and does not change the nanoseconds.
  obtain ⟨-, h⟩ := Except.if_throw_eq_ok_iff.1 h
  obtain ⟨⟨ahead, others⟩, -, h⟩ := Except.bind_eq_ok_iff.1 h
  obtain ⟨-, h⟩ := Except.unless_throw_eq_ok_iff.1 h
  obtain ⟨-, h⟩ := Except.if_throw_eq_ok_iff.1 h
  obtain rfl := Except.ok.inj h
  rfl

/-- A text is read as an instant inside a leap second exactly if it has a second of 60. -/
theorem isLeap_iff_of_parse {s : String} {t : Instant} (h : parse s = .ok t) :
    t.nanos < 2 * Instant.perSecond ∧ (t.IsLeap ↔ NamesLeap s) := by
  obtain ⟨second, rest, nanos, after, hsecond, hfraction, hnanos⟩ := parse_cases h
  have hlt := fraction_lt hfraction
  have hsixty := digits_two_eq_sixty_iff hsecond
  unfold NamesLeap Instant.IsLeap
  rw [← hsixty, hnanos]
  by_cases hleap : second = 60
  · rw [if_pos hleap]
    omega
  · rw [if_neg hleap]
    omega

end Rfc3339

end Rim
