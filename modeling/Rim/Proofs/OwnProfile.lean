import Rim.Proofs.Record.Document
import Rim.Proofs.Record.Octets
import Rim.Proofs.Record.Related

/-!
# A manifest's own profile decides

* `Registry.withoutProfiles`: a registry over which no record can put other shapes in force.
* `FollowsProfile`: a manifest that names a registered profile is read with the shapes of that
  profile throughout, whatever shapes the codec has. One that names none is read with the shapes of
  the codec throughout, and one whose profile cannot be read is not read at all.
* `Codec.readTagged`: the read of a manifest under its tag.
* `own_profile_decides`: manifests are read so, from values, from octets in either form, and from
  octets under their tag.
-/

namespace Rim

/-- The registry without its profiles. Over it a codec's own shapes stay in force at every level. -/
def Registry.withoutProfiles (reg : Registry) : Registry := { reg with profiles := [] }

/-- How a way of reading manifests, by the codec and the registry, follows what the profile member
of the manifest says. -/
structure FollowsProfile (said : Option (Except DecodeError ProfileId)) (reg : Registry)
    (read : Codec → Registry → Decoding UnsignedCorim) : Prop where
  /-- The codec of a registered profile reads the manifest alike, and so does every codec that
  treats unknown fields alike. -/
  registered : ∀ id p, said = some (.ok id) → reg.profile? id = some p → ∀ c,
    read c reg = read (c.withProfile p) reg.withoutProfiles ∧
      ∀ c' : Codec, c'.strict = c.strict → read c' reg = read c reg
  /-- Without a profile, or with one that is not registered, the codec's own shapes hold. -/
  otherwise : said = none ∨ (∃ id, said = some (.ok id) ∧ reg.profile? id = none) → ∀ c,
    read c reg = read c reg.withoutProfiles
  /-- A profile that cannot be read is an error. -/
  unreadable : ∀ e, said = some (.error e) → ∀ c, ∃ e', (read c reg).outcome = .error e'

namespace UnsignedCorim

variable {reg : Registry} {f : Form} {v : f.Value}

/-- Where the profile that a manifest names does not change the codec, no profile is looked at on
any level. -/
theorem decode_withoutProfiles {c : Codec}
    (h : RecordKind.unsignedCorim.codecFor c reg f v = c) :
    (Record.decode f (c.scope reg) v : Decoding UnsignedCorim) =
      Record.decode f (c.scope reg.withoutProfiles) v := by
  refine (Record.decode_related (ρ := .equal) fun entries hentries => ?_).symm
  have hfirst : (c.scope reg).scopedTo (Record.profileHint UnsignedCorim f entries) =
      c.scope reg := by
    rw [RecordKind.unsignedCorim.scopedTo_profileHint c reg hentries, h]
  have hsecond : (c.scope reg.withoutProfiles).scopedTo
      (Record.profileHint UnsignedCorim f entries) = c.scope reg.withoutProfiles := by
    cases Record.profileHint UnsignedCorim f entries <;> rfl
  rw [hfirst, hsecond]
  have hrelated : (c.scope reg).Related .equal (c.scope reg.withoutProfiles) := .of_profiles _ _
  exact ⟨hrelated, fields_related hrelated⟩

/-- A manifest that names a registered profile is read as by the codec of that profile, over a
registry in which nothing else can come in force. -/
theorem decode_of_registered {id : ProfileId} {p : Profile}
    (hid : profileMember? f v = some (.ok id)) (hp : reg.profile? id = some p) (c : Codec) :
    (Record.decode f (c.scope reg) v : Decoding UnsignedCorim) =
      Record.decode f ((c.withProfile p).scope reg.withoutProfiles) v := by
  have hnamed : (RecordKind.unsignedCorim.namedProfile? f v).bind reg.profile? = some p := by
    rw [RecordKind.namedProfile?, hid]
    exact hp
  have hcodec : ∀ c : Codec, RecordKind.unsignedCorim.codecFor c reg f v = c.withProfile p := by
    intro c
    rw [RecordKind.codecFor, hnamed]
    rfl
  -- The codec of the profile would switch to the shapes that it already has.
  have hswitch : (Record.decode f (c.scope reg) v : Decoding UnsignedCorim) =
      Record.decode f ((c.withProfile p).scope reg) v := by
    refine Record.decode_congr fun entries hentries => ?_
    have hscoped := fun c => RecordKind.unsignedCorim.scopedTo_profileHint c reg hentries
    rw [hscoped, hscoped, hcodec, hcodec]
    rfl
  rw [hswitch]
  exact decode_withoutProfiles (hcodec (c.withProfile p))

/-- A manifest without a profile, or with one that is not registered, is read with the codec's own
shapes. -/
theorem decode_of_unregistered
    (h : profileMember? f v = none ∨ ∃ id, profileMember? f v = some (.ok id) ∧
      reg.profile? id = none) (c : Codec) :
    (Record.decode f (c.scope reg) v : Decoding UnsignedCorim) =
      Record.decode f (c.scope reg.withoutProfiles) v := by
  have hnamed : (RecordKind.unsignedCorim.namedProfile? f v).bind reg.profile? = none := by
    rw [RecordKind.namedProfile?]
    rcases h with hnone | ⟨id, hid, hfree⟩
    · rw [hnone]
      rfl
    · rw [hid]
      exact hfree
  refine decode_withoutProfiles ?_
  rw [RecordKind.codecFor, hnamed]
  rfl

/-- A profile member that cannot be read fails the manifest. -/
theorem decode_of_unreadable {e : DecodeError} (he : profileMember? f v = some (.error e))
    (sc : Scope) : ∃ e', (Record.decode f sc v : Decoding UnsignedCorim).outcome = .error e' := by
  cases hout : (Record.decode f sc v : Decoding UnsignedCorim).outcome with
  | error e' => exact ⟨e', rfl⟩
  | ok m =>
    obtain ⟨entries, hentries, hread⟩ := Record.decode_cases (Decoding.eq_of_outcome hout)
    simp only [profileMember?, hentries] at he
    obtain ⟨⟨raw, w⟩, hfind, hw⟩ := Option.map_eq_some_iff.1 he
    -- The member is the entry of a fixed field, which has been read.
    have hkey : f.readKey raw = .ok (f.keyOf profileKey) := by
      have hraw := List.find?_some hfind
      dsimp only at hraw
      split at hraw
      next key hkey =>
        rw [hkey, of_decide_eq_true hraw]
      next => cases hraw
    obtain ⟨n, id, hid⟩ := Record.exists_decode_of_mem hread (List.mem_of_find?_eq_some hfind) hkey
      (Record.field?_of_mem profileField_mem)
    have hdecode : ProfileId.coding.decode f w = .ok id := (Decoding.ofExcept_eq_ok_iff.1 hid).2
    rw [hw] at hdecode
    cases hdecode

end UnsignedCorim

/-- What is done to the outcome of a read, if it leaves failures failures, does not change what the
read follows. -/
theorem FollowsProfile.map {said : Option (Except DecodeError ProfileId)} {reg : Registry}
    {read : Codec → Registry → Decoding UnsignedCorim} (h : FollowsProfile said reg read)
    {g : Decoding UnsignedCorim → Decoding UnsignedCorim}
    (hg : ∀ d e, d.outcome = .error e → ∃ e', (g d).outcome = .error e') :
    FollowsProfile said reg fun c reg => g (read c reg) := by
  constructor
  · intro id p hid hp c
    obtain ⟨hcodec, hcodecs⟩ := h.registered id p hid hp c
    exact ⟨congrArg g hcodec, fun c' hc' => congrArg g (hcodecs c' hc')⟩
  · intro hsaid c
    exact congrArg g (h.otherwise hsaid c)
  · intro e he c
    obtain ⟨e', he'⟩ := h.unreadable e he c
    exact hg _ e' he'

theorem Codec.read_of_parse {c : Codec} {reg : Registry} {R : Type} [Record R] {f : Form}
    {bs : Bytes} {v : f.Value} (h : f.parse bs = .ok v) :
    (c.read reg f bs : Decoding R) =
      (Record.decode f (c.scope reg) v).mapError (.record (Record.name R)) := by
  unfold Codec.read
  rw [h, Decoding.ofExcept_ok_bind]

/-- The manifest of some octets under its tag, with the unknown fields passed over. -/
def Codec.readTagged (c : Codec) (reg : Registry) (bs : Bytes) : Decoding UnsignedCorim :=
  Decoding.mapError (.record (Record.name UnsignedCorim)) do
    let v ← Decoding.ofExcept (Cbor.parse bs)
    let content ← Decoding.ofExcept (Cbor.expectTag TagNumber.unsignedCorim v)
    Record.decode .binary (c.scope reg) content

/-- A tagged manifest is read, and what was passed over is noted. -/
theorem Codec.decodeTagged_eq (c : Codec) (reg : Registry) (bs : Bytes) :
    c.decodeTagged reg bs = run reg (c.readTagged reg bs) := rfl

theorem Codec.readTagged_of_parse {c : Codec} {reg : Registry} {bs : Bytes} {v : Cbor}
    (h : Cbor.parse bs = .ok (.tag TagNumber.unsignedCorim v)) :
    c.readTagged reg bs =
      (Record.decode .binary (c.scope reg) v).mapError (.record (Record.name UnsignedCorim)) := by
  have htag : Cbor.expectTag TagNumber.unsignedCorim (.tag TagNumber.unsignedCorim v) = .ok v := rfl
  unfold Codec.readTagged
  rw [h, Decoding.ofExcept_ok_bind, htag, Decoding.ofExcept_ok_bind]

/-- A name in front of the errors does not change what a read follows. -/
theorem FollowsProfile.record {said : Option (Except DecodeError ProfileId)} {reg : Registry}
    {read read' : Codec → Registry → Decoding UnsignedCorim} (h : FollowsProfile said reg read)
    {name : String} (hread : ∀ c reg, read' c reg = (read c reg).mapError (.record name)) :
    FollowsProfile said reg read' := by
  obtain rfl : read' = fun c reg => (read c reg).mapError (.record name) := by
    funext c reg
    exact hread c reg
  refine h.map fun d e he => ⟨.record name e, ?_⟩
  rw [Decoding.mapError, he]
  rfl

/-- A manifest is read as its own profile says: from a value, from octets in either form, and from
octets under its tag. -/
theorem own_profile_decides (reg : Registry) :
    (∀ (f : Form) (v : f.Value), FollowsProfile (UnsignedCorim.profileMember? f v) reg
      fun c reg => Record.decode f (c.scope reg) v) ∧
    (∀ (f : Form) (v : f.Value) (bs : Bytes), f.parse bs = .ok v →
      FollowsProfile (UnsignedCorim.profileMember? f v) reg fun c reg => c.read reg f bs) ∧
    ∀ (v : Cbor) (bs : Bytes), Cbor.parse bs = .ok (.tag TagNumber.unsignedCorim v) →
      FollowsProfile (UnsignedCorim.profileMember? .binary v) reg
        fun c reg => c.readTagged reg bs := by
  have hvalue : ∀ (f : Form) (v : f.Value), FollowsProfile (UnsignedCorim.profileMember? f v) reg
      fun c reg => Record.decode f (c.scope reg) v := by
    intro f v
    constructor
    · intro id p hid hp c
      refine ⟨UnsignedCorim.decode_of_registered hid hp c, fun c' hc' => ?_⟩
      have hcodec : c'.withProfile p = c.withProfile p := by
        simp [Codec.withProfile, hc']
      rw [UnsignedCorim.decode_of_registered hid hp, hcodec,
        ← UnsignedCorim.decode_of_registered hid hp]
    · exact UnsignedCorim.decode_of_unregistered
    · exact fun e he c => UnsignedCorim.decode_of_unreadable he (c.scope reg)
  refine ⟨hvalue, fun f v bs hbs => ?_, fun v bs hbs => ?_⟩
  · exact (hvalue f v).record fun _ _ => Codec.read_of_parse hbs
  · exact (hvalue .binary v).record fun _ _ => Codec.readTagged_of_parse hbs

/-- The base registry with a profile whose tags have a note. -/
def tagNoteRegistry : Registry :=
  { Registry.withBuiltins with
    profiles := [⟨.uri "urn:note",
      ExtensionMap.empty.put (.own "comid" (Comid.fields.map (·.key))) noteShape, none⟩] }

/-- A manifest on the wire: a tag with a note, and a profile behind it. -/
def noteBefore (uri : String) : Cbor :=
  .map [(.uint 1, .array [.tag 506 (.bytes (Cbor.write (.map [(.uint 100, .text "first")])))]),
    (.uint 3, .tag 32 (.text uri))]

/-- The manifest with its note. -/
def notedTag : UnsignedCorim where
  tags := [{ extensions := (ExtensionSet.bound noteShape).put "note" (.string "first") }]
  profile := some (.uri "urn:note")

/-- Strict codecs, without shapes and with shapes for other records, find the note of the tag, also
in a tagged manifest. A profile that is not registered leaves lenient ones without it, and a text
that is no identifier fails. -/
theorem own_profile_decides_note :
    UnsignedCorim.profileMember? .binary (noteBefore "urn:note") =
      some (.ok (.uri "urn:note")) ∧
    Cbor.parse (Cbor.write (noteBefore "urn:note")) = .ok (noteBefore "urn:note") ∧
    Codec.read ⟨.empty, true⟩ tagNoteRegistry .binary (Cbor.write (noteBefore "urn:note")) =
      ⟨0, .ok notedTag⟩ ∧
    Codec.read ⟨noteShapes, true⟩ tagNoteRegistry .binary (Cbor.write (noteBefore "urn:note")) =
      ⟨0, .ok notedTag⟩ ∧
    Codec.readTagged ⟨noteShapes, true⟩ tagNoteRegistry
      (Cbor.write (.tag TagNumber.unsignedCorim (noteBefore "urn:note"))) = ⟨0, .ok notedTag⟩ ∧
    (Record.decode .binary (Codec.scope ⟨.empty, false⟩ tagNoteRegistry) (noteBefore "urn:other") :
      Decoding UnsignedCorim) = Record.decode .binary
        (Codec.scope ⟨.empty, false⟩ tagNoteRegistry.withoutProfiles) (noteBefore "urn:other") ∧
    ∃ e, (Record.decode .binary (Codec.scope ⟨.empty, false⟩ tagNoteRegistry)
      (noteBefore "note") : Decoding UnsignedCorim).outcome = .error e := by
  have hmember : UnsignedCorim.profileMember? .binary (noteBefore "urn:note") =
    some (.ok (.uri "urn:note")) := rfl
  have hparse : Form.parse .binary (Cbor.write (noteBefore "urn:note")) =
    .ok (noteBefore "urn:note") := rfl
  have htag : Cbor.parse (Cbor.write (.tag TagNumber.unsignedCorim (noteBefore "urn:note"))) =
    .ok (.tag TagNumber.unsignedCorim (noteBefore "urn:note")) := rfl
  have hread : Codec.read ⟨.empty, true⟩ tagNoteRegistry .binary
    (Cbor.write (noteBefore "urn:note")) = ⟨0, .ok notedTag⟩ := rfl
  have hreadTagged : Codec.readTagged ⟨.empty, true⟩ tagNoteRegistry
    (Cbor.write (.tag TagNumber.unsignedCorim (noteBefore "urn:note"))) = ⟨0, .ok notedTag⟩ := rfl
  obtain ⟨hvalues, hoctets, htagged⟩ := own_profile_decides tagNoteRegistry
  have hnote := hoctets .binary (noteBefore "urn:note") _ hparse
  have hnoteTagged := htagged (noteBefore "urn:note") _ htag
  have hother := hvalues .binary (noteBefore "urn:other")
  have hrelative := hvalues .binary (noteBefore "note")
  refine ⟨hmember, hparse, hread, ?_, ?_, ?_, ?_⟩
  · obtain ⟨-, hcodecs⟩ := hnote.registered (.uri "urn:note") _ hmember rfl ⟨.empty, true⟩
    exact (hcodecs ⟨noteShapes, true⟩ rfl).trans hread
  · obtain ⟨-, hcodecs⟩ := hnoteTagged.registered (.uri "urn:note") _ hmember rfl ⟨.empty, true⟩
    exact (hcodecs ⟨noteShapes, true⟩ rfl).trans hreadTagged
  · exact hother.otherwise (.inr ⟨.uri "urn:other", rfl, rfl⟩) _
  · exact hrelative.unreadable _ rfl _

end Rim
