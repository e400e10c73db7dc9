import Rim.Proofs.Time.Rfc3339
import Rim.Proofs.Wire.Coding
import Rim.Record.Validity

/-!
# Times on the wire

* `Instant.Representable`: the instants of the supported range.
* `Instant.inverse_binary`: every whole second of the range is read back from the binary form.
* `Instant.inverse_text`: in a year of four digits it is read back from the text form too.
* `Instant.ofJson_render_error`: in any other year it is not read from its text at all.
-/

namespace Rim.Instant

/-- An instant of the supported range. -/
def Representable (t : Instant) : Prop := ofTimestamp? t.seconds t.nanos = some t

instance (t : Instant) : Decidable t.Representable := inferInstanceAs (Decidable (_ = _))

theorem Representable.bounds {t : Instant} (h : t.Representable) :
    minSeconds ≤ t.seconds ∧ t.seconds ≤ maxSeconds := by
  unfold Representable ofTimestamp? at h
  split at h
  next hrange => exact ⟨hrange.1, hrange.2.1⟩
  next => cases h

/-- Every whole second of the range is read back from the binary form. -/
theorem inverse_binary {t : Instant} (h : t.Representable) (hwhole : t.nanos = 0) :
    coding.Inverse .binary t := by
  intro v hv
  obtain rfl : Cbor.tag TagNumber.epochTime (Cbor.ofInt t.seconds) = v := Except.ok.inj hv
  obtain ⟨hlow, hhigh⟩ := h.bounds
  have hmin : minSeconds = -8334601228800 := rfl
  have hmax : maxSeconds = 8210266876799 := rfl
  have hread := Cbor.expectInt_ofInt (n := t.seconds) (by omega) (by omega)
  have hint : (Int64.ofInt t.seconds).toInt = t.seconds :=
    Int64.toInt_ofInt_of_le (by omega) (by omega)
  have hstamp : ofTimestamp? t.seconds 0 = some t := by
    rw [← hwhole]
    exact h
  show ofCbor (.tag TagNumber.epochTime (Cbor.ofInt t.seconds)) = .ok t
  simp [ofCbor, Cbor.expectTag, hread, hint, hstamp, bind, Except.bind, pure, Except.pure]

theorem truncate_of_whole {t : Instant} (hwhole : t.nanos = 0) : t.truncate = t := by
  obtain ⟨seconds, nanos⟩ := t
  obtain rfl : nanos = 0 := hwhole
  rfl

/-- A whole second of a year of four digits is read back from the text form. -/
theorem inverse_text {t : Instant} (hyear : t.InFourDigits) (hwhole : t.nanos = 0) :
    coding.Inverse .text t := by
  intro v hv
  obtain rfl : Json.string (Rfc3339.render t) = v := Except.ok.inj hv
  show ofJson (.string (Rfc3339.render t)) = .ok t
  simp [ofJson, Json.expectString, Rfc3339.parse_render hyear hwhole, truncate_of_whole hwhole,
    bind, Except.bind, pure, Except.pure]

/-- A time of any other year is written but not read. -/
theorem ofJson_render_error {t : Instant} (hyear : ¬ t.InFourDigits) :
    ∃ e, ofJson (.string (Rfc3339.render t)) = .error e := by
  obtain ⟨e, he⟩ := Rfc3339.parse_render_error hyear
  cases hread : ofJson (.string (Rfc3339.render t)) with
  | error cause => exact ⟨cause, rfl⟩
  | ok u => simp [ofJson, Json.expectString, he, bind, Except.bind] at hread

end Rim.Instant
