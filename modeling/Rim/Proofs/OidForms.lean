import Rim.Proofs.Oid.Grammar
import Rim.Proofs.Oid.Words

/-!
# The forms of object identifiers mirror each other

* `oid_forms_inverse`: the dotted text and the content octets of an object identifier are found
  from one another, with one plain text for each octets; the octets that are read are exactly those
  that are written, which the grammar describes without either conversion; and on machine words
  neither conversion is ever stopped or loses a bit.
-/

namespace Rim

open Oid

/-- The two forms of object identifiers are inverse to each other. -/
theorem oid_forms_inverse (text : String) (ber : Bytes) :
    -- The octets that a text was read from are its octets.
    (ofBer ber = .ok text → toBer text = .ok ber) ∧
    -- The octets of a text are read as a text of the same arcs, without signs or leading zeros.
    (toBer text = .ok ber →
      ∃ spelling arcs, ofBer ber = .ok spelling ∧ Spells text arcs ∧ Spells spelling arcs ∧
        Plain spelling) ∧
    -- What is read is what is written: sub-identifiers that are minimal, terminated and below the
    -- limit, each of them kept in full.
    ((∃ spelling, ofBer ber = .ok spelling) ↔ ∃ other, toBer other = .ok ber) ∧
    ((∃ spelling, ofBer ber = .ok spelling) ↔ ∃ numbers, Content ber numbers) ∧
    (∀ first rest, Content ber (first :: rest) →
      ofBer ber = .ok (dotted ((splitRoot first).1 :: (splitRoot first).2 :: rest)) ∧
        40 * (splitRoot first).1 + (splitRoot first).2 = first) ∧
    (∀ spelling, canonical text = .ok spelling → canonical spelling = .ok spelling) ∧
    (toBer text = .ok ber →
      ∀ other, toBer other = .ok ber ↔ ∃ arcs, Spells text arcs ∧ Spells other arcs) ∧
    -- On machine words nothing overflows, and no index is out of range.
    Words.toBer text = .ok (toBer text) ∧ Words.ofBer ber = .ok (ofBer ber) := by
  refine ⟨toBer_of_ofBer, ?_, ?_, ?_, ?_, ?_, toBer_eq_iff_spells, Words.toBer_eq text,
    Words.ofBer_eq ber⟩
  · intro h
    obtain ⟨root, second, rest, hwf, hspells, hcontent⟩ := toBer_eq_ok_iff.1 h
    refine ⟨dotted (root :: second :: rest), root :: second :: rest, ?_, hspells, ?_, ?_⟩
    · exact ofBer_eq_ok_iff.2 ⟨root, second, rest, hwf, rfl, hcontent⟩
    · exact spells_dotted (by simp)
    · exact plain_dotted (by simp)
  · constructor
    · rintro ⟨spelling, h⟩
      exact ⟨spelling, toBer_of_ofBer h⟩
    · rintro ⟨other, h⟩
      obtain ⟨spelling, hspelling, -⟩ := ofBer_of_toBer h
      exact ⟨spelling, hspelling⟩
  · constructor
    · rintro ⟨spelling, h⟩
      obtain ⟨root, second, rest, -, -, hcontent⟩ := ofBer_eq_ok_iff.1 h
      exact ⟨_, hcontent⟩
    · rintro ⟨numbers, hcontent⟩
      cases numbers with
      | nil => exact absurd rfl (content_iff.1 hcontent).1
      | cons first rest => exact ⟨_, ofBer_of_content hcontent⟩
  · exact fun first rest hcontent => ⟨ofBer_of_content hcontent, shared_splitRoot first⟩
  · intro spelling h
    obtain ⟨ber, -, hread⟩ := ofBer_of_canonical h
    exact canonical_of_ofBer hread

/-- The largest number that the first two arcs can share, with a sign and a leading zero. -/
theorem oid_forms_inverse_largest :
    toBer "+2.018446744073709551535" =
        .ok [0x81, 0xff, 0xff, 0xff, 0xff, 0xff, 0xff, 0xff, 0xff, 0x7f] ∧
      ∃ spelling arcs,
        ofBer [0x81, 0xff, 0xff, 0xff, 0xff, 0xff, 0xff, 0xff, 0xff, 0x7f] = .ok spelling ∧
          Spells "+2.018446744073709551535" arcs ∧ Spells spelling arcs ∧ Plain spelling := by
  have hber : toBer "+2.018446744073709551535" =
      .ok [0x81, 0xff, 0xff, 0xff, 0xff, 0xff, 0xff, 0xff, 0xff, 0x7f] := by
    have harcs : arcs "+2.018446744073709551535" = .ok (2, 18446744073709551535, []) := by
      decide +kernel
    rw [toBer_of_arcs harcs]
    simp [groups, highGroups]
  exact ⟨hber, (oid_forms_inverse _ _).2.1 hber⟩

end Rim
