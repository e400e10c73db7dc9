import Rim.Proofs.Record.ReadBound
import Rim.Proofs.Time.Leap
import Rim.Proofs.ValidityForms

/-!
# Windows in whole seconds

Truncation keeps an instant inside its leap second, which leaves a whole second in its nanoseconds.

* `Validity.make_eq_map`: what comes of a window whose ends are truncated.
* `Validity.refusedAsFractional_iff`: the windows that are refused because of a fraction.
* `Validity.nanos_of_decode_text`: the ends of a window that has been read from text.
* `whole_unless_leap`: no window is refused because of a fraction, be it made or read, unless one
  of its ends lies in a leap second, which always is.
-/

namespace Rim

namespace Instant

/-- The second that an instant lies in, or whose leap second it lies in. -/
def second (t : Instant) : Instant := ⟨t.seconds, 0⟩

@[simp] theorem nanos_second (t : Instant) : t.second.nanos = 0 := rfl

/-- Truncation of an ordinary second drops the nanoseconds. -/
theorem truncate_of_not_isLeap {t : Instant} (h : ¬ t.IsLeap) : t.truncate = t.second := by
  have hlt : t.nanos < perSecond := Nat.lt_of_not_le h
  unfold truncate second
  rw [Nat.mod_eq_of_lt hlt, Nat.sub_self]

/-- Truncation of a leap second leaves a whole second in the nanoseconds. -/
theorem nanos_truncate_of_isLeap {t : Instant} (hlt : t.nanos < 2 * perSecond) (h : t.IsLeap) :
    t.truncate.nanos = perSecond := by
  have hle : perSecond ≤ t.nanos := h
  have hmod : t.nanos % perSecond = t.nanos - perSecond := by
    rw [Nat.mod_eq_sub_mod hle, Nat.mod_eq_of_lt (by omega)]
  show t.nanos - t.nanos % perSecond = perSecond
  omega

theorem nanos_truncate_eq_zero_iff {t : Instant} (hlt : t.nanos < 2 * perSecond) :
    t.truncate.nanos = 0 ↔ ¬ t.IsLeap := by
  constructor
  · intro hzero hleap
    rw [nanos_truncate_of_isLeap hlt hleap] at hzero
    exact absurd hzero (by decide)
  · intro hleap
    rw [truncate_of_not_isLeap hleap]
    rfl

end Instant

namespace Validity

/-! ## The check of a window -/

/-- The violation of an end with a nanosecond part. -/
def fractional (name : String) (t : Instant) : ValidationError :=
  (ValidationError.invalid s!"{t.display} has a fractional second").within (.field name)

/-- The violation of a window that ends before it begins. -/
def reversed : ValidationError := .invalid "not-before is later than not-after"

theorem field_validate (name : String) (t : Instant) :
    Validation.field name t.validate =
      if t.nanos = 0 then .ok () else .error (fractional name t) := by
  unfold Instant.validate Validation.require
  by_cases h : t.nanos = 0
  · simp only [h, decide_true, if_true]
    rfl
  · simp only [h, decide_false, if_false]
    rfl

/-- The check of a window with an end, which is looked at first. -/
theorem validate_of_end (first? : Option Instant) (last : Instant) :
    validate ⟨first?, some last⟩ =
      if last.nanos = 0 then
        match first? with
        | none => .ok ()
        | some first =>
          if first.nanos = 0 then
            if last.isBefore first then .error reversed else .ok ()
          else .error (fractional "not-before" first)
      else .error (fractional "not-after" last) := by
  unfold validate
  simp only [field_validate]
  by_cases hlast : last.nanos = 0
  · rw [if_pos hlast, if_pos hlast]
    cases first? with
    | none => rfl
    | some first =>
      dsimp only
      by_cases hfirst : first.nanos = 0
      · rw [if_pos hfirst, if_pos hfirst]
        cases last.isBefore first <;> rfl
      · rw [if_neg hfirst, if_neg hfirst]
        rfl
  · rw [if_neg hlast, if_neg hlast]
    rfl

/-- The check fails because of a fraction of a second at an end. -/
def RefusedAsFractional (w : Validity) : Prop :=
  ∃ name, ∃ t ∈ w.times, w.validate = .error (fractional name t)

theorem reversed_ne_fractional (name : String) (t : Instant) : reversed ≠ fractional name t := by
  intro h
  cases congrArg ValidationError.path h

/-- A window with an end is refused so exactly if an end has a nanosecond part. -/
theorem refusedAsFractional_iff (w : Validity) :
    w.RefusedAsFractional ↔ w.notAfter ≠ none ∧ ∃ t ∈ w.times, t.nanos ≠ 0 := by
  obtain ⟨first?, last?⟩ := w
  cases last? with
  | none =>
    constructor
    · rintro ⟨name, t, -, h⟩
      have hmissing : ValidationError.missing "not-after" = fractional name t := Except.error.inj h
      cases congrArg ValidationError.path hmissing
    · exact fun h => absurd rfl h.1
  | some last =>
  constructor
  · rintro ⟨name, t, -, h⟩
    refine ⟨by simp, ?_⟩
    -- If no end had one, the check would pass or find the window reversed.
    by_contra hwhole
    have hnone : ∀ t ∈ times ⟨first?, some last⟩, t.nanos = 0 := fun t ht =>
      not_not.1 fun hne => hwhole ⟨t, ht, hne⟩
    rw [validate_of_end, if_pos (hnone last (by simp [times]))] at h
    cases first? with
    | none => cases h
    | some first =>
      dsimp only at h
      rw [if_pos (hnone first (by simp [times]))] at h
      split at h
      · exact reversed_ne_fractional name t (Except.error.inj h)
      · cases h
  · rintro ⟨-, t, ht, hne⟩
    by_cases hlast : last.nanos = 0
    · -- Then it is the beginning that has one.
      obtain rfl : first? = some t := by
        rcases List.mem_append.1 ht with ht | ht
        · exact Option.mem_toList.1 ht
        · obtain rfl : last = t := Option.some.inj (Option.mem_toList.1 ht)
          exact absurd hlast hne
      refine ⟨"not-before", t, ht, ?_⟩
      rw [validate_of_end, if_pos hlast]
      exact if_neg hne
    · refine ⟨"not-after", last, by simp [times], ?_⟩
      rw [validate_of_end, if_neg hlast]

/-- The encoders refuse a window so exactly if its check does. -/
theorem encode_fractional_iff (w : Validity) (f : Form) (reg : Registry) :
    (∃ name, ∃ t ∈ w.times,
      (reg.encode f w).1 = .error (.record "validity" (.invalid (fractional name t)))) ↔
      w.RefusedAsFractional := by
  unfold RefusedAsFractional
  cases h : w.validate with
  | ok u => simp [encode_octets h f reg]
  | error e =>
    have hencode : (reg.encode f w).1 = .error (.record "validity" (.invalid e)) :=
      reg.encode_of_invalid f h
    simp [hencode]

/-! ## Windows that are made -/

/-- A window is made if the window of truncated ends passes the check. -/
theorem make_eq_map (first? : Option Instant) (last : Instant) :
    make first? last = (validate ⟨first?.map (·.truncate), some last.truncate⟩).map fun _ =>
      ⟨first?.map (·.truncate), some last.truncate⟩ := by
  show (validate ⟨first?.map (·.truncate), some last.truncate⟩ >>= fun _ => Except.ok _) = _
  cases validate ⟨first?.map (·.truncate), some last.truncate⟩ <;> rfl

theorem make_eq_error_iff {first? : Option Instant} {last : Instant} {e : ValidationError} :
    make first? last = .error e ↔
      validate ⟨first?.map (·.truncate), some last.truncate⟩ = .error e := by
  rw [make_eq_map]
  cases validate ⟨first?.map (·.truncate), some last.truncate⟩ <;> simp [Except.map]

theorem times_truncate (first? : Option Instant) (last : Instant) :
    times ⟨first?.map (·.truncate), some last.truncate⟩ =
      (times ⟨first?, some last⟩).map (·.truncate) := by
  cases first? <;> rfl

/-- Making a window fails because of a fraction exactly if an end lies in a leap second. -/
theorem make_fractional_iff {first? : Option Instant} {last : Instant}
    (hlt : ∀ t ∈ times ⟨first?, some last⟩, t.nanos < 2 * Instant.perSecond) :
    (∃ name, ∃ t ∈ times ⟨first?, some last⟩,
        make first? last = .error (fractional name t.truncate)) ↔
      ∃ t ∈ times ⟨first?, some last⟩, t.IsLeap := by
  have hrefused := refusedAsFractional_iff ⟨first?.map (·.truncate), some last.truncate⟩
  unfold RefusedAsFractional at hrefused
  rw [times_truncate] at hrefused
  simp only [List.mem_map, exists_exists_and_eq_and, ← make_eq_error_iff] at hrefused
  rw [hrefused]
  constructor
  · rintro ⟨-, t, ht, hne⟩
    refine ⟨t, ht, ?_⟩
    by_contra hleap
    exact hne ((Instant.nanos_truncate_eq_zero_iff (hlt t ht)).2 hleap)
  · rintro ⟨t, ht, hleap⟩
    exact ⟨by simp, t, ht, fun hzero =>
      (Instant.nanos_truncate_eq_zero_iff (hlt t ht)).1 hzero hleap⟩

/-- A window of ordinary seconds is made, unless it would end before it begins. -/
theorem make_of_ordinary {first? : Option Instant} {last : Instant}
    (h : ∀ t ∈ times ⟨first?, some last⟩, ¬ t.IsLeap) :
    (make first? last = .ok ⟨first?.map (·.second), some last.second⟩ ∧
        ∀ first, first? = some first → last.second.isBefore first.second = false) ∨
      (make first? last = .error reversed ∧
        ∃ first, first? = some first ∧ last.second.isBefore first.second = true) := by
  have hlast : last.truncate = last.second :=
    Instant.truncate_of_not_isLeap (h last (by simp [times]))
  rw [make_eq_map, validate_of_end, hlast, if_pos (Instant.nanos_second last)]
  cases first? with
  | none =>
    refine .inl ⟨rfl, ?_⟩
    rintro _ ⟨⟩
  | some first =>
    have hfirst : first.truncate = first.second :=
      Instant.truncate_of_not_isLeap (h first (by simp [times]))
    dsimp only [Option.map_some]
    rw [hfirst, if_pos (Instant.nanos_second first)]
    cases hbefore : last.second.isBefore first.second with
    | true => exact .inr ⟨rfl, first, rfl, hbefore⟩
    | false =>
      refine .inl ⟨rfl, ?_⟩
      rintro _ ⟨⟩
      exact hbefore

/-! ## Windows that are read -/

variable {f : Form} {sc : Scope}

theorem place_notBefore : Record.Place Validity.fields[0] Validity.notBefore some := by
  refine ⟨fun _ _ => rfl, ?_, fun _ _ => rfl⟩
  simp [Record.fields, Validity.fields, Field.of]

theorem place_notAfter : Record.Place Validity.fields[1] Validity.notAfter some := by
  refine ⟨fun _ _ => rfl, ?_, fun _ _ => rfl⟩
  simp [Record.fields, Validity.fields, Field.of]

/-- An end that has been read was read of the entry with its key. -/
theorem entry_of_held {x : Field Validity} {put : x.Content → Option Instant} {v : f.Value}
    {entries : List (f.RawKey × f.Value)} {t : Instant} (hentries : f.members v = .ok entries)
    (hread : ∀ n u b, x.wire.decode f sc u = ⟨n, .ok b⟩ → put b = some t →
      Instant.coding.decode f u = .ok t)
    (h : Record.Held f sc x put none entries (some t)) :
    ∃ u, f.Entry x.key v u ∧ Instant.coding.decode f u = .ok t := by
  cases h with
  | @read raw u n b hmem hkey _ hb hput =>
    exact ⟨u, (Form.entry_iff hentries).2 ⟨raw, hmem, hkey⟩, hread n u b hb hput.symm⟩
  | absent _ hnone => cases hnone

/-- The ends of a window that has been read were read of its entries. -/
theorem exists_entry_of_decode {v : f.Value} {n : Nat} {w : Validity}
    (h : Record.decode f sc v = ⟨n, .ok w⟩) :
    ∀ t ∈ w.times, ∃ key u, f.Entry key v u ∧ Instant.coding.decode f u = .ok t := by
  obtain ⟨entries, hentries, hdecode⟩ := Record.decode_cases h
  have hnotBefore := Record.held (List.getElem_mem _) place_notBefore hdecode
  have hnotAfter := Record.held (List.getElem_mem _) place_notAfter hdecode
  intro t ht
  have hread : ∀ sc n u b, Instant.coding.toWire.decode f sc u = ⟨n, .ok b⟩ → some b = some t →
      Instant.coding.decode f u = .ok t := by
    intro sc n u b hb hput
    obtain rfl := Option.some.inj hput
    exact (Decoding.ofExcept_eq_ok_iff.1 hb).2
  rcases List.mem_append.1 ht with ht | ht
  · rw [Option.mem_toList.1 ht] at hnotBefore
    exact ⟨_, entry_of_held hentries (hread _) hnotBefore⟩
  · rw [Option.mem_toList.1 ht] at hnotAfter
    exact ⟨_, entry_of_held hentries (hread _) hnotAfter⟩

/-- The binary form has no fractions. -/
theorem nanos_of_decode_binary {v : Cbor} {t : Instant}
    (h : Instant.coding.decode .binary v = .ok t) : t.nanos = 0 := by
  obtain ⟨content, -, h⟩ := Except.bind_eq_ok_iff.1 h
  obtain ⟨seconds, -, h⟩ := Except.bind_eq_ok_iff.1 h
  unfold Instant.ofTimestamp? at h
  by_cases hrange : Instant.minSeconds ≤ seconds.toInt ∧ seconds.toInt ≤ Instant.maxSeconds ∧
      (0 < Instant.perSecond ∨ (0 < 2 * Instant.perSecond ∧ seconds.toInt % 60 = 59))
  · rw [if_pos hrange] at h
    obtain rfl := Except.ok.inj h
    rfl
  · rw [if_neg hrange] at h
    cases h

/-- The text form has none either, apart from the whole second that stands for a leap second. -/
theorem nanos_of_decode_text {v : Json} {t : Instant}
    (h : Instant.coding.decode .text v = .ok t) :
    ∃ s, v = .string s ∧ t.nanos = if Rfc3339.NamesLeap s then Instant.perSecond else 0 := by
  obtain ⟨s, hs, h⟩ := Except.bind_eq_ok_iff.1 h
  refine ⟨s, Json.eq_of_expectString hs, ?_⟩
  cases hparse : Rfc3339.parse s with
  | error e =>
    rw [hparse] at h
    cases h
  | ok u =>
    rw [hparse] at h
    obtain rfl : u.truncate = t := Except.ok.inj h
    obtain ⟨hlt, hleap⟩ := Rfc3339.isLeap_iff_of_parse hparse
    by_cases hnames : Rfc3339.NamesLeap s
    · rw [if_pos hnames]
      exact Instant.nanos_truncate_of_isLeap hlt (hleap.2 hnames)
    · rw [if_neg hnames, Instant.truncate_of_not_isLeap fun h => hnames (hleap.1 h)]
      rfl

end Validity

open Validity

/-- A window is refused because of a fraction of a second only if an end lies in a leap second, be
it made of two instants or read in either form. -/
theorem whole_unless_leap (first? : Option Instant) (last : Instant) (w : Validity) (sc : Scope)
    (reg : Registry) :
    -- Making a window fails because of a fraction exactly if an end lies in a leap second. Else the
    -- window has its ends to the second, unless it would end before it begins.
    ((∀ t ∈ times ⟨first?, some last⟩, t.nanos < 2 * Instant.perSecond) →
      ((∃ name, ∃ t ∈ times ⟨first?, some last⟩,
          make first? last = .error (fractional name t.truncate)) ↔
        ∃ t ∈ times ⟨first?, some last⟩, t.IsLeap) ∧
      ((∀ t ∈ times ⟨first?, some last⟩, ¬ t.IsLeap) →
        (make first? last = .ok ⟨first?.map (·.second), some last.second⟩ ∧
          ∀ first, first? = some first → last.second.isBefore first.second = false) ∨
        (make first? last = .error reversed ∧
          ∃ first, first? = some first ∧ last.second.isBefore first.second = true))) ∧
    -- A window that is read from the binary form has no fractions.
    (∀ (v : Cbor) (n : Nat), Record.decode .binary sc v = ⟨n, .ok w⟩ →
      (∀ t ∈ w.times, t.nanos = 0) ∧ ¬ w.RefusedAsFractional) ∧
    -- One that is read from text has none either, apart from the texts with a second of 60.
    (∀ (v : Json) (n : Nat), Record.decode .text sc v = ⟨n, .ok w⟩ →
      (∀ t ∈ w.times, ∃ key s, Form.Entry .text key v (.string s) ∧
        t.nanos = if Rfc3339.NamesLeap s then Instant.perSecond else 0) ∧
      (w.RefusedAsFractional ↔ w.notAfter ≠ none ∧ ∃ t ∈ w.times, t.IsLeap)) ∧
    -- The encoders refuse what the check refuses.
    ∀ f : Form, (∃ name, ∃ t ∈ w.times,
        (reg.encode f w).1 = .error (.record "validity" (.invalid (fractional name t)))) ↔
      w.RefusedAsFractional := by
  refine ⟨fun hlt => ⟨make_fractional_iff hlt, make_of_ordinary⟩, fun v n h => ?_, fun v n h => ?_,
    fun f => encode_fractional_iff w f reg⟩
  · have hwhole : ∀ t ∈ w.times, t.nanos = 0 := by
      intro t ht
      obtain ⟨key, u, -, hu⟩ := exists_entry_of_decode h t ht
      exact nanos_of_decode_binary hu
    refine ⟨hwhole, fun hrefused => ?_⟩
    obtain ⟨-, t, ht, hne⟩ := (refusedAsFractional_iff w).1 hrefused
    exact hne (hwhole t ht)
  · have hread : ∀ t ∈ w.times, ∃ key s, Form.Entry .text key v (.string s) ∧
        t.nanos = if Rfc3339.NamesLeap s then Instant.perSecond else 0 := by
      intro t ht
      obtain ⟨key, u, hentry, hu⟩ := exists_entry_of_decode h t ht
      obtain ⟨s, rfl, hnanos⟩ := nanos_of_decode_text hu
      exact ⟨key, s, hentry, hnanos⟩
    have hleap : ∀ t ∈ w.times, t.nanos ≠ 0 ↔ t.IsLeap := by
      intro t ht
      obtain ⟨-, s, -, hnanos⟩ := hread t ht
      have hsecond : Instant.perSecond = 1000000000 := rfl
      unfold Instant.IsLeap
      split at hnanos <;> omega
    refine ⟨hread, (refusedAsFractional_iff w).trans (and_congr_right fun _ => ?_)⟩
    exact exists_congr fun t => and_congr_right fun ht => hleap t ht

/-- The leap second at the end of 2016 is refused, also when it is read, while half a second before
it is dropped. -/
theorem whole_unless_leap_new_year :
    make none ⟨1483228799, 500000000⟩ = .ok ⟨none, some ⟨1483228799, 0⟩⟩ ∧
    (∃ name, ∃ t ∈ times ⟨none, some ⟨1483228799, 1500000000⟩⟩,
      make none ⟨1483228799, 1500000000⟩ = .error (fractional name t.truncate)) ∧
    ∃ w : Validity, Record.decode .text (Codec.scope ⟨.empty, true⟩ .withBuiltins)
        (.object [("not-after", .string "2016-12-31T23:59:60.5Z")]) = ⟨0, .ok w⟩ ∧
      w.RefusedAsFractional := by
  have hread : (Record.decode .text (Codec.scope ⟨.empty, true⟩ .withBuiltins)
      (.object [("not-after", .string "2016-12-31T23:59:60.5Z")]) : Decoding Validity) =
      ⟨0, .ok ⟨none, some ⟨1483228799, 1000000000⟩⟩⟩ := by
    rfl
  obtain ⟨hordinary, -⟩ := whole_unless_leap none ⟨1483228799, 500000000⟩ {}
    (Codec.scope ⟨.empty, true⟩ .withBuiltins) .withBuiltins
  obtain ⟨hleap, -, htext, -⟩ := whole_unless_leap none ⟨1483228799, 1500000000⟩
    ⟨none, some ⟨1483228799, 1000000000⟩⟩ (Codec.scope ⟨.empty, true⟩ .withBuiltins) .withBuiltins
  refine ⟨?_, (hleap (by decide)).1.2 ⟨⟨1483228799, 1500000000⟩, by simp [times], by decide⟩, _,
    hread, ?_⟩
  · rcases (hordinary (by decide)).2 (by decide) with ⟨hok, -⟩ | ⟨-, first, hfirst, -⟩
    · exact hok
    · cases hfirst
  · exact (htext _ _ hread).2.2 ⟨by simp, ⟨1483228799, 1000000000⟩, by simp [times], by decide⟩

end Rim
