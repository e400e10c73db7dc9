import Rim.Proofs.Record.Document
import Rim.Proofs.Registry

/-!
# Profile identifiers are the same in every form

* `Registry.profile?_registerProfile`: a profile that has been registered is found.
* `profile_ids_agree`: the parser and the decoders of both forms read the same identifiers, each of
  which comes back from what is written of it; the two kinds share no text; and a profile registered
  under a parsed name is found by the hints of both forms, which put its shapes in force.
-/

namespace Rim

open ProfileId

/-- Identifiers with the same text are the same. -/
theorem ProfileId.eq_of_text_eq {a b : ProfileId} (ha : a.WellFormed) (hb : b.WellFormed)
    (h : a.text = b.text) : a = b := by
  have hparse := parse_text ha
  rw [h, parse_text hb] at hparse
  exact (Except.ok.inj hparse).symm

/-- The decoders of both forms read the well-formed identifiers. -/
theorem ProfileId.exists_decode_iff {f : Form} {id : ProfileId} :
    (∃ v, coding.decode f v = .ok id) ↔ id.WellFormed := by
  constructor
  · rintro ⟨v, h⟩
    exact wellFormed_of_decode h
  · intro h
    obtain ⟨v, -, hread⟩ := decode_encode h f
    exact ⟨v, hread⟩

namespace Registry

/-- A profile is found under its identifier from its registration on. -/
theorem profile?_registerProfile {reg next : Registry} {p : Profile}
    (h : reg.registerProfile p = .ok next) : next.profile? p.id = some p := by
  obtain ⟨hfree, rfl⟩ := registerProfile_cases h
  have hnone : reg.profiles.find? (fun q => q.id = p.id) = none := hfree
  simp [profile?, List.find?_append, hnone]

end Registry

/-- Profile identifiers are the same in every form. -/
theorem profile_ids_agree :
    -- What is parsed is written in both forms, and comes back from there and from its own text.
    (∀ s id, parse s = .ok id →
      parse id.text = .ok id ∧ ofJson (.string s) = .ok id ∧
        ∀ f : Form, ∃ v, coding.encode f id = .ok v ∧ coding.decode f v = .ok id) ∧
    -- What is decoded is parsed from its text.
    (∀ (f : Form) (v : f.Value) id, coding.decode f v = .ok id → parse id.text = .ok id) ∧
    -- So there is one set of identifiers.
    (∀ id, ((∃ s, parse s = .ok id) ↔ id.WellFormed) ∧
      ∀ f : Form, (∃ v, coding.decode f v = .ok id) ↔ id.WellFormed) ∧
    -- The two kinds have no text in common, so that a text tells the kind too.
    (∀ s, ¬ ((ProfileId.uri s).WellFormed ∧ (ProfileId.oid s).WellFormed)) ∧
    (∀ a b : ProfileId, a.WellFormed → b.WellFormed → a.text = b.text → a = b) ∧
    -- A profile registered under a name is found in documents of both forms, by what is written of
    -- its identifier and by every other spelling of it.
    (∀ (name : String) (p : Profile) (reg next : Registry), parse name = .ok p.id →
      reg.registerProfile p = .ok next →
      ∀ (f : Form) (entries : List (f.RawKey × f.Value)) (w : f.Value),
        f.FirstUnder UnsignedCorim.profileKey entries w →
        coding.encode f p.id = .ok w ∨ coding.decode f w = .ok p.id →
        Record.profileHint UnsignedCorim f entries = some p.id ∧
          ∀ c : Codec, (c.scope next).scopedTo (Record.profileHint UnsignedCorim f entries) =
            (c.withProfile p).scope next) := by
  refine ⟨fun s id h => ?_, fun f v id h => parse_text (wellFormed_of_decode h),
    fun id => ⟨exists_parse_iff, fun f => exists_decode_iff⟩, fun s h => ?_,
    fun a b ha hb h => eq_of_text_eq ha hb h, ?_⟩
  · have hwf := wellFormed_of_parse h
    exact ⟨parse_text hwf, ofJson_string.2 h, decode_encode hwf⟩
  · exact not_wellFormed_oid h.1 h.2
  · intro name p reg next hname hregister f entries w hfirst hspelled
    have hread : coding.decode f w = .ok p.id := by
      rcases hspelled with hwritten | hread
      · exact (decode_eq_iff hwritten).2 (wellFormed_of_parse hname)
      · exact hread
    have hhint : Record.profileHint UnsignedCorim f entries = some p.id := by
      rw [UnsignedCorim.profileHint_eq hfirst, hread]
      rfl
    have hfound : (some p.id).bind next.profile? = some p :=
      Registry.profile?_registerProfile hregister
    refine ⟨hhint, fun c => ?_⟩
    rw [hhint, Codec.scopedTo_eq, hfound]
    rfl

/-- A profile under an object identifier, without shapes. -/
def arcProfile : Profile := { id := .oid "1.2.3", shapes := .empty }

/-- The profile is registered under a name with leading zeros. It is found by other spellings in
text, and by its octets behind entries of other keys. -/
theorem profile_ids_agree_arcs :
    parse "01.2.003" = .ok arcProfile.id ∧
    ∃ next, Registry.withBuiltins.registerProfile arcProfile = .ok next ∧
      Record.profileHint UnsignedCorim .text [("profile", .string "1.02.3")] = some arcProfile.id ∧
      Record.profileHint UnsignedCorim .binary
        [(.text "note", .uint 0), (.uint 3, .tag TagNumber.oid (.bytes [0x2a, 0x03]))] =
          some arcProfile.id ∧
      ∀ c : Codec, (c.scope next).scopedTo (some arcProfile.id) =
        (c.withProfile arcProfile).scope next := by
  have hparse : ∀ s, Oid.arcs s = .ok (1, 2, [3]) → looksDotted s = true →
      parse s = .ok arcProfile.id := by
    intro s harcs hlooks
    have hber := Oid.toBer_of_arcs harcs
    have hwf : Oid.WellFormed 1 2 [3] := ⟨by decide, by decide, by decide, by decide⟩
    have hread : Oid.ofBer ([42, 3].flatMap Oid.groups) = .ok "1.2.3" :=
      Oid.ofBer_flatMap_groups hwf
    have hcanonical : Oid.canonical s = .ok "1.2.3" := by
      simpa [Oid.canonical, hber, bind, Except.bind] using hread
    simp [parse, hlooks, hcanonical, arcProfile]
  have hname : parse "01.2.003" = .ok arcProfile.id :=
    hparse _ (by decide +kernel) (by decide +kernel)
  have hother : parse "1.02.3" = .ok arcProfile.id :=
    hparse _ (by decide +kernel) (by decide +kernel)
  have hber : Oid.toBer "1.2.3" = .ok [0x2a, 0x03] := by
    have harcs : Oid.arcs "1.2.3" = .ok (1, 2, [3]) := by decide +kernel
    rw [Oid.toBer_of_arcs harcs]
    simp [Oid.groups]
  have hwritten : coding.encode .binary arcProfile.id =
      .ok (.tag TagNumber.oid (.bytes [0x2a, 0x03])) := by
    simp [coding, toCbor, arcProfile, hber]
  obtain ⟨-, -, -, -, -, hfound⟩ := profile_ids_agree
  have hregister : Registry.withBuiltins.registerProfile arcProfile =
    .ok { Registry.withBuiltins with profiles := [arcProfile] } := rfl
  obtain ⟨htext, -⟩ := hfound _ _ _ _ hname hregister .text [("profile", .string "1.02.3")] _
    ⟨[], _, [], rfl, rfl, by simp⟩ (.inr (ofJson_string.2 hother))
  have hnote : ∀ e ∈ [(Cbor.text "note", Cbor.uint 0)],
      Form.binary.readKey e.1 ≠ .ok (Form.binary.keyOf UnsignedCorim.profileKey) := by
    intro e he hkey
    obtain rfl := List.mem_singleton.1 he
    cases hkey
  obtain ⟨hbinary, hscope⟩ := hfound _ _ _ _ hname hregister .binary
    [(.text "note", .uint 0), (.uint 3, .tag TagNumber.oid (.bytes [0x2a, 0x03]))] _
    ⟨[(.text "note", .uint 0)], _, [], rfl, rfl, hnote⟩ (.inl hwritten)
  rw [hbinary] at hscope
  exact ⟨hname, _, hregister, htext, hbinary, hscope⟩

end Rim
