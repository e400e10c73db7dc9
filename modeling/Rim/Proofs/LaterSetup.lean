import Rim.Proofs.OwnProfile
import Rim.Proofs.Setup

/-!
# Later setup does not disturb a codec

* `Stays`: an outcome that a later registry repeats, unless it is the failure of a variant that is
  not registered yet.
* `Choice.decode_mono`, `Choice.encode_mono`: a longer table of variants reads and writes what a
  shorter one does.
* `RecordKind.NamesNewProfile`: a document names a profile that has been registered in the meantime.
* `Codec.Undisturbed`, `setup_leaves_codecs_undisturbed`: setup calls change nothing of what a codec
  reads and writes, but for such documents.
-/

namespace Rim

open Decoding (Comparison)

/-- A type tag or discriminator has no variant. -/
def DecodeError.IsUnknownVariant (e : DecodeError) : Prop :=
  ∃ family key, e = .unknownVariant family key

/-- What succeeds still does and gives the same, and what fails for another reason than an unknown
variant still fails for that reason. -/
structure Stays {α : Type} (earlier later : Except DecodeError α) : Prop where
  ok : ∀ a, earlier = .ok a → later = .ok a
  error : ∀ e, earlier = .error e → ¬ e.root.IsUnknownVariant → later = .error e

/-- The comparison of decodes before and after setup. -/
abbrev Decoding.Comparison.setup : Comparison := .exceptFor DecodeError.IsUnknownVariant

theorem Stays.of_setup {α : Type} {d d' : Decoding α} (h : Comparison.setup.Holds d d') :
    Stays d.outcome d'.outcome := by
  rcases h with ⟨e, hout, he⟩ | rfl
  · rw [hout]
    constructor
    · intro a ha
      cases ha
    · rintro _ ⟨⟩ hknown
      exact absurd he hknown
  · exact ⟨fun _ ha => ha, fun _ he _ => he⟩

/-! ## Type choices -/

namespace Choice

variable {types later : TypeTable} {family : Family}

/-- A variant that is found by its discriminator is found in a longer table. -/
theorem variantOf_mono (h : types <+: later) (discriminator : Discriminator) :
    Comparison.setup.Holds (.ofExcept (variantOf types family discriminator))
      (.ofExcept (variantOf later family discriminator)) := by
  unfold variantOf
  cases hv : types.byDiscriminator? family discriminator with
  | none => exact .inl ⟨_, rfl, family, discriminator.describe, rfl⟩
  | some v =>
    have hlater : later.byDiscriminator? family discriminator = some v := h.find?_eq_some hv
    rw [hlater]
    exact Comparison.setup.ofExcept _

theorem decodeEnvelope_mono (h : types <+: later) (e : Json.Envelope) :
    Comparison.setup.Holds (.ofExcept (decodeEnvelope types family e))
      (.ofExcept (decodeEnvelope later family e)) := by
  unfold decodeEnvelope
  cases hv : types.byTypeTag? family e.typeTag with
  | none => exact .inl ⟨_, rfl, family, e.typeTag, rfl⟩
  | some v =>
    have hlater : later.byTypeTag? family e.typeTag = some v := h.find?_eq_some hv
    rw [hlater]
    exact Comparison.setup.ofExcept _

/-- A value that is read with a table is read alike with a longer one. -/
theorem decode_mono (h : types <+: later) (f : Form) (v : f.Value) :
    Comparison.setup.Holds (.ofExcept (decode types family f v))
      (.ofExcept (decode later family f v)) := by
  cases f with
  | binary =>
    refine Comparison.setup.except_bind (.inr rfl) fun (discriminator, payload) => ?_
    refine Comparison.setup.except_bind (variantOf_mono h discriminator) fun w => ?_
    exact Comparison.setup.ofExcept _
  | text =>
    show Comparison.setup.Holds (.ofExcept (decodeJson types family v))
      (.ofExcept (decodeJson later family v))
    unfold decodeJson
    split
    next s =>
      refine Comparison.setup.except_bind (variantOf_mono h .bareText) fun w => ?_
      exact Comparison.setup.ofExcept _
    next => exact Comparison.setup.except_bind (.inr rfl) (decodeEnvelope_mono h)

/-- A value that is written with a table is written alike with a longer one. -/
theorem encode_mono (h : types <+: later) {f : Form} {value : ChoiceValue} {v : f.Value}
    (hv : encode types family f value = .ok v) : encode later family f value = .ok v := by
  have hregistered : ∀ w, registered types family value = .ok w →
      registered later family value = .ok w := by
    unfold registered
    intro w hw
    split at hw
    next w' hfound =>
      have hlater : later.byTypeTag? family value.typeTag = some w' := h.find?_eq_some hfound
      rwa [hlater]
    next => cases hw
  cases f with
  | binary =>
    obtain ⟨_, hvalid, hrest⟩ := Except.bind_eq_ok_iff.1 hv
    obtain ⟨w, hw, hpayload⟩ := Except.bind_eq_ok_iff.1 hrest
    exact Except.bind_eq_ok_iff.2 ⟨_, hvalid,
      Except.bind_eq_ok_iff.2 ⟨w, hregistered w hw, hpayload⟩⟩
  | text =>
    obtain ⟨_, hvalid, hrest⟩ := Except.bind_eq_ok_iff.1 hv
    obtain ⟨w, hw, hpayload⟩ := Except.bind_eq_ok_iff.1 hrest
    exact Except.bind_eq_ok_iff.2 ⟨_, hvalid,
      Except.bind_eq_ok_iff.2 ⟨w, hregistered w hw, hpayload⟩⟩

end Choice

/-- A codec decodes in related scopes over a registry and what becomes of it. -/
theorem Registry.GrowsTo.scope {reg later : Registry} (h : reg.GrowsTo later) (c : Codec) :
    (c.scope reg).Related .setup (c.scope later) where
  bindings := rfl
  reads _ _ v := Choice.decode_mono h.types _ v
  writes _ _ _ _ hv := Choice.encode_mono h.types hv
  skips _ _ := .inr rfl

/-! ## Records -/

namespace RecordKind

/-- A document names a profile that the first registry does not have and the second has. -/
def NamesNewProfile (k : RecordKind) (reg later : Registry) (f : Form) (v : f.Value) : Prop :=
  ∃ id, k.namedProfile? f v = some id ∧ reg.profile? id = none ∧ later.profile? id ≠ none

theorem sameProfile_of_growsTo (k : RecordKind) {reg later : Registry} (h : reg.GrowsTo later)
    (c : Codec) {f : Form} {v : f.Value} (hnew : ¬ k.NamesNewProfile reg later f v) :
    k.SameProfile f (c.scope reg) (c.scope later) v := by
  intro entries hentries id hid
  rw [k.profileHint_eq hentries] at hid
  have hsame : later.profile? id = reg.profile? id := by
    cases hp : reg.profile? id with
    | some p => exact h.profile? hp
    | none =>
      by_contra hlater
      exact hnew ⟨id, hid, hp, hlater⟩
  show (later.profile? id).map _ = (reg.profile? id).map _
  rw [hsame]

variable (k : RecordKind) {reg later : Registry} {c : Codec} {f : Form}

theorem decode_setup (h : reg.GrowsTo later) {v : f.Value}
    (hnew : ¬ k.NamesNewProfile reg later f v) :
    Comparison.setup.Holds (Record.decode f (c.scope reg) v : Decoding k.Carrier)
      (Record.decode f (c.scope later) v) :=
  k.decode_related (h.scope c) (k.sameProfile_of_growsTo h c hnew)

/-- A valid record that can be encoded is encoded alike after setup. -/
theorem encodeValid_setup (h : reg.GrowsTo later) {r : k.Carrier} {v : f.Value}
    (hv : Record.encodeValid f reg.types r = .ok v) :
    Record.encodeValid f later.types r = .ok v := by
  obtain ⟨hvalid, hencode⟩ := Record.encodeValid_cases hv
  -- The shapes of a codec do not matter for writing.
  have hrelated := h.scope (Codec.ofRegistry reg)
  refine Except.mapError_eq_ok_iff.2 (Except.bind_eq_ok_iff.2 ⟨(), ?_, ?_⟩)
  · exact Except.mapError_eq_ok_iff.2 hvalid
  · exact k.encode_related hrelated hencode

end RecordKind

/-! ## Codecs -/

/-- What a codec reads and writes over a registry, in all the ways there are, it still reads and
writes over a later one. Manifests that name a profile which is new there are left out. -/
structure Codec.Undisturbed (c : Codec) (reg later : Registry) : Prop where
  values : ∀ (k : RecordKind) (f : Form) (v : f.Value), ¬ k.NamesNewProfile reg later f v →
    Stays (Record.decode f (c.scope reg) v : Decoding k.Carrier).outcome
      (Record.decode f (c.scope later) v).outcome
  octets : ∀ (k : RecordKind) (f : Form) (bs : Bytes),
    (∀ v, f.parse bs = .ok v → ¬ k.NamesNewProfile reg later f v) →
    Stays (c.decode k.Carrier reg f bs).1 (c.decode k.Carrier later f bs).1
  tagged : ∀ bs : Bytes,
    (∀ v, Cbor.parse bs = .ok (.tag TagNumber.unsignedCorim v) →
      ¬ RecordKind.unsignedCorim.NamesNewProfile reg later .binary v) →
    Stays (c.decodeTagged reg bs).1 (c.decodeTagged later bs).1
  encoded : ∀ (k : RecordKind) (f : Form) (r : k.Carrier) (bs : Bytes),
    (reg.encode f r).1 = .ok bs → (later.encode f r).1 = .ok bs
  encodedTagged : ∀ (m : UnsignedCorim) (bs : Bytes),
    m.toTagged reg.types = .ok bs → m.toTagged later.types = .ok bs

namespace Registry.GrowsTo

variable {reg later : Registry}

theorem read (h : reg.GrowsTo later) (c : Codec) (k : RecordKind) {f : Form} {bs : Bytes}
    (hnew : ∀ v, f.parse bs = .ok v → ¬ k.NamesNewProfile reg later f v) :
    Comparison.setup.Holds (c.read reg f bs : Decoding k.Carrier) (c.read later f bs) := by
  refine Comparison.setup.mapError _ (fun _ => rfl) ?_
  exact Comparison.setup.ofExcept_bind _ fun v hv => k.decode_setup h (hnew v hv)

theorem readTagged (h : reg.GrowsTo later) (c : Codec) {bs : Bytes}
    (hnew : ∀ v, Cbor.parse bs = .ok (.tag TagNumber.unsignedCorim v) →
      ¬ RecordKind.unsignedCorim.NamesNewProfile reg later .binary v) :
    Comparison.setup.Holds (c.readTagged reg bs) (c.readTagged later bs) := by
  refine Comparison.setup.mapError _ (fun _ => rfl) ?_
  refine Comparison.setup.ofExcept_bind _ fun v hv => ?_
  refine Comparison.setup.ofExcept_bind _ fun content hcontent => ?_
  obtain rfl := Cbor.eq_of_expectTag hcontent
  exact RecordKind.unsignedCorim.decode_setup h (hnew content hv)

/-- Whatever octets are made of a record, they are made of it after setup. -/
theorem octets_of_encodeValid (h : reg.GrowsTo later) (k : RecordKind) {f : Form} {r : k.Carrier}
    {print : f.Value → Bytes} {bs : Bytes}
    (hbs : (Record.encodeValid f reg.types r).map print = .ok bs) :
    (Record.encodeValid f later.types r).map print = .ok bs := by
  cases hv : Record.encodeValid f reg.types r with
  | error e =>
    rw [hv] at hbs
    cases hbs
  | ok v => rw [k.encodeValid_setup h hv, ← hbs, hv]

end Registry.GrowsTo

/-- A codec is undisturbed by any setup calls, whether they succeed or not. -/
theorem setup_leaves_codecs_undisturbed (reg : Registry) (calls : List SetupCall) (c : Codec) :
    c.Undisturbed reg (reg.attempts calls) := by
  have h := reg.growsTo_attempts calls
  constructor
  · exact fun k f v hnew => .of_setup (k.decode_setup h hnew)
  · exact fun k f bs hnew => .of_setup (h.read c k hnew)
  · intro bs hnew
    rw [Codec.decodeTagged_eq, Codec.decodeTagged_eq]
    exact .of_setup (h.readTagged c hnew)
  · exact fun k f r bs hbs => h.octets_of_encodeValid k hbs
  · exact fun m bs hbs => h.octets_of_encodeValid .unsignedCorim (f := .binary) (r := m) hbs

/-- Setup that registers a profile and a variant, binds a shape and ends, and a call that comes too
late. -/
def noteSetup : List SetupCall :=
  [.registerProfile ⟨.uri "urn:note", noteShapes, none⟩, .registerType .tagId (.tag 999) .bytes,
    .bind .corims noteShape, .finish, .bindProfile (.uri "urn:note")]

/-- The setup succeeds up to its end. A manifest of a profile that it does not register is read as
before, a strict codec refuses it for the same field as before, and a manifest is written as
before. -/
theorem setup_leaves_codecs_undisturbed_note :
    let later := Registry.withBuiltins.attempts noteSetup
    (later.profiles.length = 1 ∧ later.types.length = 9 ∧
      (later.bindings.find? .corims).isSome ∧ later.isSealed) ∧
    (∃ m, (Codec.decode UnsignedCorim ⟨.empty, false⟩ later .binary
      (Cbor.write (noteBefore "urn:other"))).1 = .ok m ∧ m.tags.length = 1) ∧
    (∃ e, (Codec.decode UnsignedCorim ⟨.empty, true⟩ later .binary
      (Cbor.write (noteBefore "urn:other"))).1 = .error e ∧
        e.root = .unknownField "comid" "100") ∧
    ∃ bs, (Registry.withBuiltins.encode .binary noteManifest).1 = .ok bs ∧
      (later.encode .binary noteManifest).1 = .ok bs := by
  intro later
  have hlenient := setup_leaves_codecs_undisturbed Registry.withBuiltins noteSetup ⟨.empty, false⟩
  have hstrict := setup_leaves_codecs_undisturbed Registry.withBuiltins noteSetup ⟨.empty, true⟩
  have hnew : ∀ v, Form.parse .binary (Cbor.write (noteBefore "urn:other")) = .ok v →
      ¬ RecordKind.unsignedCorim.NamesNewProfile Registry.withBuiltins later .binary v := by
    intro v hv
    have hparse : Form.parse .binary (Cbor.write (noteBefore "urn:other")) =
      .ok (noteBefore "urn:other") := rfl
    obtain rfl := Except.ok.inj (hparse.symm.trans hv)
    rintro ⟨id, hid, -, hlater⟩
    obtain rfl : ProfileId.uri "urn:other" = id := Option.some.inj hid
    exact hlater rfl
  obtain ⟨m, hm, htags⟩ : ∃ m, (Codec.decode UnsignedCorim ⟨.empty, false⟩ Registry.withBuiltins
    .binary (Cbor.write (noteBefore "urn:other"))).1 = .ok m ∧ m.tags.length = 1 := ⟨_, rfl, rfl⟩
  obtain ⟨e, he, hroot⟩ : ∃ e, (Codec.decode UnsignedCorim ⟨.empty, true⟩ Registry.withBuiltins
    .binary (Cbor.write (noteBefore "urn:other"))).1 = .error e ∧
      e.root = .unknownField "comid" "100" := ⟨_, rfl, rfl⟩
  have hknown : ¬ e.root.IsUnknownVariant := by
    rw [hroot]
    rintro ⟨family, key, ⟨⟩⟩
  refine ⟨⟨rfl, rfl, rfl, rfl⟩, ⟨m, ?_, htags⟩, ⟨e, ?_, hroot⟩, ⟨_, rfl, ?_⟩⟩
  · exact (hlenient.octets .unsignedCorim .binary _ hnew).ok m hm
  · exact (hstrict.octets .unsignedCorim .binary _ hnew).error e he hknown
  · exact hlenient.encoded .unsignedCorim .binary noteManifest _ rfl

end Rim
