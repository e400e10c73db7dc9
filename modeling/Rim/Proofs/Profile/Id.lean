import Rim.Profile.Id
import Rim.Proofs.Oid
import Rim.Proofs.Outcome

/-!
# Profile identifiers on the wire

* `ProfileId.WellFormed`: absolute URIs, and the plain texts of object identifiers.
* `ProfileId.exists_parse_iff`: these are the identifiers that are parsed, and
  `ProfileId.parse_text` finds each of them again under its own text.
* `ProfileId.not_wellFormed_oid`: no text is both kinds of identifier.
* `ProfileId.ofCbor_toCbor`, `ProfileId.ofJson_text`: they are read back from both forms.
* `ProfileId.wellFormed_of_decode`: nothing else is read from either form.
-/

namespace Rim.ProfileId

/-- The identifiers that have one spelling in each form: absolute URIs, and the dotted texts of
well-formed arcs. -/
def WellFormed : ProfileId → Prop
  | .uri s => Uri.isAbsolute s = true
  | .oid dotted => ∃ root second rest, Oid.WellFormed root second rest ∧
      dotted = Oid.dotted (root :: second :: rest)

theorem wellFormed_oid_iff {dotted : String} :
    (ProfileId.oid dotted).WellFormed ↔ ∃ ber, Oid.ofBer ber = .ok dotted :=
  Oid.exists_ofBer_iff.symm

/-! ## Text -/

/-- A canonical spelling looks like an object identifier. -/
theorem looksDotted_of_ofBer {dotted : String} {ber : Bytes} (h : Oid.ofBer ber = .ok dotted) :
    looksDotted dotted = true := by
  obtain ⟨hne, hchars⟩ := Oid.mem_toList_of_ofBer h
  simp only [looksDotted, Bool.and_eq_true, List.all_eq_true, Bool.or_eq_true, beq_iff_eq]
  refine ⟨?_, hchars⟩
  simpa using hne

/-- The colon of an absolute URI is neither a digit nor a point. -/
theorem looksDotted_of_isAbsolute {s : String} (h : Uri.isAbsolute s = true) :
    looksDotted s = false := by
  unfold Uri.isAbsolute at h
  cases hcut : Text.cut? ':' s.toList with
  | none => simp [hcut] at h
  | some parts =>
    have hcolon : ':' ∈ s.toList := by
      rw [(Text.eq_of_cut? hcut).1]
      simp
    cases hlooks : looksDotted s with
    | false => rfl
    | true =>
      simp only [looksDotted, Bool.and_eq_true, List.all_eq_true, Bool.or_eq_true,
        beq_iff_eq] at hlooks
      exact absurd (hlooks.2 ':' hcolon) (by decide)

/-- No text is both a URI and an object identifier. -/
theorem not_wellFormed_oid {s : String} (h : (ProfileId.uri s).WellFormed) :
    ¬ (ProfileId.oid s).WellFormed := by
  intro hoid
  obtain ⟨ber, hread⟩ := wellFormed_oid_iff.1 hoid
  have hlooks := looksDotted_of_ofBer hread
  rw [looksDotted_of_isAbsolute h] at hlooks
  cases hlooks

/-- A well-formed identifier is parsed from its own text. -/
theorem parse_text {id : ProfileId} (h : id.WellFormed) : parse id.text = .ok id := by
  cases id with
  | uri s =>
    have huri : Uri.isAbsolute s = true := h
    show parse s = .ok (.uri s)
    simp [parse, looksDotted_of_isAbsolute huri, huri]
  | oid dotted =>
    obtain ⟨ber, hread⟩ := wellFormed_oid_iff.1 h
    show parse dotted = .ok (.oid dotted)
    simp [parse, looksDotted_of_ofBer hread, Oid.canonical_of_ofBer hread]

/-- What has been parsed is well formed. -/
theorem wellFormed_of_parse {s : String} {id : ProfileId} (h : parse s = .ok id) :
    id.WellFormed := by
  unfold parse at h
  cases hlooks : looksDotted s with
  | true =>
    cases hcanon : Oid.canonical s with
    | error e => simp [hlooks, hcanon] at h
    | ok dotted =>
      obtain rfl : ProfileId.oid dotted = id := by simpa [hlooks, hcanon] using h
      obtain ⟨ber, -, hread⟩ := Oid.ofBer_of_canonical hcanon
      exact wellFormed_oid_iff.2 ⟨ber, hread⟩
  | false =>
    cases huri : Uri.isAbsolute s with
    | false => simp [hlooks, huri] at h
    | true =>
      obtain rfl : ProfileId.uri s = id := by simpa [hlooks, huri] using h
      exact huri

theorem exists_parse_iff {id : ProfileId} : (∃ s, parse s = .ok id) ↔ id.WellFormed := by
  constructor
  · rintro ⟨s, h⟩
    exact wellFormed_of_parse h
  · exact fun h => ⟨id.text, parse_text h⟩

/-! ## The wire -/

/-- A well-formed identifier is written in the binary form and read back. -/
theorem ofCbor_toCbor {id : ProfileId} (h : id.WellFormed) :
    ∃ v, toCbor id = .ok v ∧ ofCbor v = .ok id := by
  cases id with
  | uri s =>
    have huri : Uri.isAbsolute s = true := h
    exact ⟨_, rfl, by simp [ofCbor, Cbor.expectText, huri, bind, Except.bind, pure, Except.pure]⟩
  | oid dotted =>
    obtain ⟨ber, hread⟩ := wellFormed_oid_iff.1 h
    have hother : TagNumber.oid ≠ TagNumber.uri := by decide
    refine ⟨.tag TagNumber.oid (.bytes ber), by simp [toCbor, Oid.toBer_of_ofBer hread], ?_⟩
    simp [ofCbor, hother, Cbor.expectBytes, hread, bind, Except.bind, pure, Except.pure]

/-- The text form reads what is parsed. -/
theorem ofJson_string {s : String} {id : ProfileId} :
    ofJson (.string s) = .ok id ↔ parse s = .ok id := by
  show (parse s).mapError _ = .ok id ↔ _
  exact Except.mapError_eq_ok_iff

/-- A well-formed identifier is read back from the text form. -/
theorem ofJson_text {id : ProfileId} (h : id.WellFormed) : ofJson (.string id.text) = .ok id :=
  ofJson_string.2 (parse_text h)

theorem wellFormed_of_ofCbor {v : Cbor} {id : ProfileId} (h : ofCbor v = .ok id) :
    id.WellFormed := by
  unfold ofCbor at h
  split at h
  next number content =>
    split at h
    next =>
      obtain ⟨s, -, h⟩ := Except.bind_eq_ok_iff.1 h
      cases huri : Uri.isAbsolute s with
      | false => simp [huri] at h
      | true =>
        obtain rfl : ProfileId.uri s = id := by simpa [huri, pure, Except.pure] using h
        exact huri
    next =>
      split at h
      next =>
        obtain ⟨ber, -, h⟩ := Except.bind_eq_ok_iff.1 h
        cases hread : Oid.ofBer ber with
        | error e => simp [hread] at h
        | ok dotted =>
          obtain rfl : ProfileId.oid dotted = id := by simpa [hread, pure, Except.pure] using h
          exact wellFormed_oid_iff.2 ⟨ber, hread⟩
      next => simp [Cbor.unexpected] at h
  next => simp [Cbor.unexpected] at h

/-- What is read of either form is well formed. -/
theorem wellFormed_of_decode {f : Form} {v : f.Value} {id : ProfileId}
    (h : coding.decode f v = .ok id) : id.WellFormed := by
  cases f with
  | binary => exact wellFormed_of_ofCbor h
  | text =>
    obtain ⟨s, -, hparse⟩ := Except.bind_eq_ok_iff.1 h
    exact wellFormed_of_parse (Except.mapError_eq_ok_iff.1 hparse)

/-- A well-formed identifier is written in both forms, and read back from what was written. -/
theorem decode_encode {id : ProfileId} (h : id.WellFormed) (f : Form) :
    ∃ v, coding.encode f id = .ok v ∧ coding.decode f v = .ok id := by
  cases f with
  | binary => exact ofCbor_toCbor h
  | text => exact ⟨_, rfl, ofJson_text h⟩

/-- The identifiers that are read back from what was written of them are the well-formed ones. -/
theorem decode_eq_iff {f : Form} {id : ProfileId} {v : f.Value} (h : coding.encode f id = .ok v) :
    coding.decode f v = .ok id ↔ id.WellFormed := by
  constructor
  · exact wellFormed_of_decode
  · intro hwf
    obtain ⟨w, hw, hread⟩ := decode_encode hwf f
    obtain rfl : w = v := Except.ok.inj (hw.symm.trans h)
    exact hread

end Rim.ProfileId
