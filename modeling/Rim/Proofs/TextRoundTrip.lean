import Rim.Proofs.BinaryRoundTrip

/-!
# Records come back from the text form

* `Graph.Portable.binary`: what is carried through the text form is carried through the binary form.
* `text_round_trip`: whatever setup has made of the base registry, records of every kind are read
  back from what is written of them, from members and from the octets of the text. Times have years
  of four digits, and no extension entry stands under the name of a fixed field. What the binary
  form asks for beyond that is no more than on its own.
* `text_round_trip_fails`: setup allows such an entry, and what comes back from the text form need
  not come back from the binary form.
-/

namespace Rim

open Registry

/-- What is carried through the text form is carried through the binary form. -/
theorem Graph.Portable.binary {R : Type} [Graph R] {r : R} {sc : Scope}
    (h : Graph.Portable r .text sc) : Graph.Portable r .binary sc := by
  intro p hp
  cases p with
  | time t =>
    obtain ⟨hrange, hwhole, -⟩ := h _ hp
    exact ⟨hrange, hwhole, nofun⟩
  | choice family value => exact h _ hp
  | extensions point set => exact h _ hp
  | profile id => exact h _ hp

/-- Records of every kind are read back from the text form if no extension entry stands under the
name of a fixed field. They are read back from the binary form too, if no entry stands under the
slot of one and no choice is written as a number. -/
theorem text_round_trip {reg : Registry} {setup : List SetupCall}
    (hreg : withBuiltins.attempts setup = reg) (c : Codec) (k : RecordKind) (x : k.Carrier)
    (hx : Graph.Portable x .text (c.scope reg)) :
    (Graph.Clear x .text → ∀ v, Record.encode .text reg.types x = .ok v →
      ∃ y, Record.decode .text (c.scope reg) v = ⟨0, .ok y⟩ ∧ (y == x) = true) ∧
    (Graph.Clear x .text → ∀ bs, (reg.encode .text x).1 = .ok bs →
      ∃ y, c.read reg .text bs = ⟨0, .ok y⟩ ∧ (y == x) = true) ∧
    (Graph.Clear x .binary → Graph.Plain x reg.types →
      ∀ bs, (reg.encode .binary x).1 = .ok bs → bs.length < UInt64.size →
        ∃ y, c.read reg .binary bs = ⟨0, .ok y⟩ ∧ (y == x) = true) ∧
    -- No members are read as a record that holds an entry under the name of a fixed field.
    ∀ y v n, Record.decode .text (c.scope reg) v = ⟨n, .ok y⟩ → (y == x) = true →
      Graph.Clear x .text := by
  have hd : (c.scope reg).types.Distinct := hreg ▸ distinct_attempts (.inr rfl) setup
  refine ⟨fun hclear v hv => ?_, fun hclear bs hbs => ?_, fun hclear hplain bs hbs hsize => ?_,
    fun y v n => k.clear_of_decode hx⟩
  · exact RecordKind.returns hd hx hclear (fun hf => by cases hf) v hv trivial
  · have hreturns := RecordKind.returns hd hx hclear fun hf => by cases hf
    have hwrites := RecordKind.writes hx hclear fun hf => by cases hf
    exact Codec.read_encode hreturns hwrites (by decide) hbs fun hf => by cases hf
  · have hreturns := RecordKind.returns hd hx.binary hclear fun _ =>
      RecordKind.sealedPlain_of_plain hplain
    have hwrites := RecordKind.writes hx.binary hclear fun _ => hplain
    exact Codec.read_encode hreturns hwrites (by decide) hbs fun _ => hsize

/-- The manifest with a note comes back from its members, from its text and from its octets. -/
theorem text_round_trip_note :
    withBuiltins.attempts noteProfileSetup = noteRegistry ∧
    (∃ v, Record.encode .text noteRegistry.types noteManifest = .ok v ∧
      ∃ y, Record.decode .text ((Codec.ofRegistry noteRegistry).scope noteRegistry) v =
        ⟨0, .ok y⟩ ∧ (y == noteManifest) = true) ∧
    ∀ f, ∃ bs, (noteRegistry.encode f noteManifest).1 = .ok bs ∧
      ∃ y, (Codec.ofRegistry noteRegistry).read noteRegistry f bs = ⟨0, .ok y⟩ ∧
        (y == noteManifest) = true := by
  obtain ⟨hmembers, htext, hoctets, -⟩ := text_round_trip attempts_noteProfileSetup
    (Codec.ofRegistry noteRegistry) .unsignedCorim noteManifest (portable_noteManifest .text)
  refine ⟨attempts_noteProfileSetup, ⟨_, rfl, hmembers (clear_noteManifest .text) _ rfl⟩,
    fun f => ?_⟩
  cases f with
  | text => exact ⟨_, rfl, htext (clear_noteManifest .text) _ rfl⟩
  | binary =>
    exact ⟨_, rfl, hoctets (clear_noteManifest .binary) plain_noteManifest _ rfl (by decide)⟩

/-- What is read from the text of the measured value with two names. -/
def renamedMval : Mval where
  name := some "spare"
  extensions := .bound nameShape

/-- Of the measured value with two names one is lost in the text form: the second takes the place of
the first. The identity of one octet can be carried through the text form but not through the binary
form. -/
theorem text_round_trip_fails :
    (withBuiltins.attempts shadowSetup = shadowRegistry ∧
      Graph.Portable shadowedMval .text shadowScope ∧
      ∃ v, Record.encode .text shadowRegistry.types shadowedMval = .ok v ∧
        Record.decode .text shadowScope v = ⟨0, .ok renamedMval⟩ ∧
        (renamedMval == shadowedMval) = false) ∧
    (withBuiltins.attempts bigNumberSetup = bigNumberRegistry ∧
      Graph.Portable shortIdentity .text bigNumberScope ∧
      ∃ bs e, (bigNumberRegistry.encode .binary shortIdentity).1 = .ok bs ∧
        ((Codec.ofRegistry bigNumberRegistry).decode TagIdentity bigNumberRegistry .binary bs).1 =
          .error e) :=
  ⟨⟨rfl, portable_shadowedMval _, _, rfl, rfl, rfl⟩, rfl, portable_shortIdentity _, _, _, rfl, rfl⟩

end Rim
