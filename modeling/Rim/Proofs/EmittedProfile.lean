import Rim.Proofs.OwnProfile
import Rim.Proofs.ValidEncodes

/-!
# The profile that a manifest is written with

Neither the check of a manifest nor its encoders look at the grammar of its profile identifier.

* `UnsignedCorim.naming`: a manifest under another profile.
* `UnsignedCorim.exists_encode_naming_iff`: an identifier keeps a manifest from being encoded only
  if it has no value in the form at all.
* `UnsignedCorim.exists_profile_entry`: the entry that is written of the identifier.
* `emitted_profile_read_iff`: the entry is read as the identifier exactly if that is well formed,
  and the manifest with an entry that cannot be read is not read either.
-/

namespace Rim

open ProfileId

/-- The text form writes every identifier. The binary form asks for the octets of object
identifiers. -/
theorem ProfileId.exists_encode_iff {f : Form} {id : ProfileId} :
    (∃ w, coding.encode f id = .ok w) ↔
      f = .binary → ∀ dotted, id = .oid dotted → ∃ ber, Oid.toBer dotted = .ok ber := by
  cases f with
  | text => exact ⟨nofun, fun _ => ⟨_, rfl⟩⟩
  | binary =>
    cases id with
    | uri s => exact ⟨nofun, fun _ => ⟨_, rfl⟩⟩
    | oid dotted =>
      cases hber : Oid.toBer dotted with
      | ok ber => simp [coding, toCbor, hber]
      | error e => simp [coding, toCbor, hber]

namespace UnsignedCorim

/-- The manifest under another profile, or under none. -/
def naming (m : UnsignedCorim) (id? : Option ProfileId) : UnsignedCorim := { m with profile := id? }

variable {f : Form} {types : TypeTable}

/-- A manifest is written with a profile if it is written without one, and the identifier has a
value in the form. -/
theorem writable_naming_iff {m : UnsignedCorim} {id : ProfileId} :
    (Record.wire UnsignedCorim).Writable f types (m.naming (some id)) ↔
      (Record.wire UnsignedCorim).Writable f types (m.naming none) ∧
        ∃ w, coding.encode f id = .ok w := by
  have hparts : ∀ p, p ∈ Graph.parts (m.naming (some id)) ↔
      p ∈ Graph.parts (m.naming none) ∨ p = .profile id := by
    intro p
    simp only [Graph.parts, naming, List.mem_append, Option.toList_some, Option.toList_none,
      List.map_cons, List.map_nil, List.mem_singleton, List.not_mem_nil]
    tauto
  rw [writable_iff, writable_iff]
  constructor
  · intro h
    exact ⟨fun p hp => h p ((hparts p).2 (.inl hp)), h _ ((hparts _).2 (.inr rfl))⟩
  · rintro ⟨hothers, hid⟩ p hp
    rcases (hparts p).1 hp with hp | rfl
    · exact hothers p hp
    · exact hid

/-- A manifest is encoded with a profile if it is encoded without one, and the identifier has a
value in the form. -/
theorem exists_encode_naming_iff {reg : Registry} {m : UnsignedCorim} {id : ProfileId} :
    (∃ bs, (reg.encode f (m.naming (some id))).1 = .ok bs) ↔
      (∃ bs, (reg.encode f (m.naming none)).1 = .ok bs) ∧ ∃ w, coding.encode f id = .ok w := by
  rw [Registry.exists_encode_iff, Registry.exists_encode_iff, writable_naming_iff, and_assoc]
  rfl

/-- The entry that is written of the profile is the first under its key, unless an extension takes
its name in the text form. -/
theorem exists_profile_entry {m : UnsignedCorim} {id : ProfileId} (hid : m.profile = some id)
    {v : f.Value} (hv : Record.encode f types m = .ok v)
    (hfree : f = .text → ∀ shape, m.extensions.shape = some shape →
      ∀ x ∈ shape.fields, x.wire.name ≠ profileKey.name) :
    ∃ entries w, f.members v = .ok entries ∧ f.FirstUnder profileKey entries w ∧
      coding.encode f id = .ok w := by
  obtain ⟨fixed, extensions, hfixed, hextensions, rfl⟩ := Record.encode_cases hv
  obtain ⟨w, hmem, hw⟩ := Record.exists_mem_encodeFields hfixed profileField_mem hid
  have hnodup : (fixed.map fun e => f.keyOf e.1).Nodup := by
    have hkeys := (Record.sublist_encodeFields hfixed).map f.keyOf
    rw [List.map_map, List.map_map] at hkeys
    exact hkeys.nodup (Record.nodup_keyOf f)
  have hothers : f = .text → ∀ e ∈ extensions, e.1.name ≠ profileKey.name := by
    intro hf e he
    rcases Record.encodeExtensions_cases hextensions with ⟨-, rfl⟩ | ⟨_, ⟨⟩, hset⟩
    · exact absurd he List.not_mem_nil
    · have hwritten : e.1 ∈ m.extensions.held.map (·.wire) :=
        ExtensionSet.map_fst_encode hset ▸ List.mem_map_of_mem he
      obtain ⟨x, hx, hwire⟩ := List.mem_map.1 hwritten
      obtain ⟨shape, hshape, hdeclared, -⟩ := ExtensionSet.mem_held.1 hx
      rw [← hwire]
      exact hfree hf shape hshape x hdeclared
  obtain ⟨entries, hentries, hfirst⟩ := Form.exists_firstUnder hmem hnodup hothers
  exact ⟨entries, w, hentries, hfirst, hw⟩

end UnsignedCorim

open UnsignedCorim

/-- The profile that a manifest is written with comes back exactly if it is well formed; a malformed
one is written all the same, as long as the form has a value for it. -/
theorem emitted_profile_read_iff (m : UnsignedCorim) (id : ProfileId) (reg : Registry) (f : Form) :
    -- The check does not look at the profile, and the encoder only asks for a value.
    ((m.naming (some id)).validate = (m.naming none).validate) ∧
    ((∃ bs, (reg.encode f (m.naming (some id))).1 = .ok bs) ↔
      (∃ bs, (reg.encode f (m.naming none)).1 = .ok bs) ∧
        (f = .binary → ∀ dotted, id = .oid dotted → ∃ ber, Oid.toBer dotted = .ok ber)) ∧
    -- What is written of it is the profile member, unless an extension takes its name.
    ∀ v : f.Value, Record.encode f reg.types (m.naming (some id)) = .ok v →
      (f = .text → ∀ shape, m.extensions.shape = some shape →
        ∀ x ∈ shape.fields, x.wire.name ≠ profileKey.name) →
      ∃ w, coding.encode f id = .ok w ∧ profileMember? f v = some (coding.decode f w) ∧
        (coding.decode f w = .ok id ↔ id.WellFormed) ∧
        ∀ e, coding.decode f w = .error e → ∀ sc : Scope,
          ∃ e', (Record.decode f sc v : Decoding UnsignedCorim).outcome = .error e' := by
  refine ⟨rfl, ?_, fun v hv hfree => ?_⟩
  · rw [exists_encode_naming_iff, exists_encode_iff]
  · obtain ⟨entries, w, hentries, hfirst, hw⟩ := exists_profile_entry rfl hv hfree
    have hmember := profileMember?_eq hentries hfirst
    refine ⟨w, hw, hmember, decode_eq_iff hw, fun e he sc => ?_⟩
    rw [he] at hmember
    exact decode_of_unreadable hmember sc

/-- A valid manifest under a text that is no object identifier is encoded in the text form, and not
read back by any codec. -/
theorem emitted_profile_read_iff_nonsense :
    (noteManifest.naming (some (.oid "nonsense"))).validate = .ok () ∧
    (∃ bs, (noteRegistry.encode .text (noteManifest.naming (some (.oid "nonsense")))).1 = .ok bs) ∧
    ∃ v, Record.encode .text noteRegistry.types (noteManifest.naming (some (.oid "nonsense"))) =
        .ok v ∧
      ∀ sc : Scope,
        ∃ e, (Record.decode .text sc v : Decoding UnsignedCorim).outcome = .error e := by
  obtain ⟨hcheck, hencode, hread⟩ :=
    emitted_profile_read_iff noteManifest (.oid "nonsense") noteRegistry .text
  have hwritten : ∃ v, Record.encode .text noteRegistry.types
      (noteManifest.naming (some (.oid "nonsense"))) = .ok v := ⟨_, rfl⟩
  obtain ⟨v, hv⟩ := hwritten
  have hfree : ∀ shape, noteManifest.extensions.shape = some shape →
      ∀ x ∈ shape.fields, x.wire.name ≠ profileKey.name := by
    rintro _ ⟨⟩
    decide
  obtain ⟨w, hw, -, -, hunread⟩ := hread v hv fun _ => hfree
  obtain rfl := Except.ok.inj hw
  have hbad : ∃ e, coding.decode .text (Json.string "nonsense") = .error e := ⟨_, rfl⟩
  obtain ⟨e, he⟩ := hbad
  exact ⟨rfl, hencode.2 ⟨⟨_, rfl⟩, nofun⟩, v, hv, hunread e he⟩

end Rim
