import Rim.Proofs.Record.Shadowed

/-!
# Records come back from the binary form

* `binary_round_trip`: whatever setup has made of the base registry, records of every kind are read
  back from what is written of them: from items, from octets, and from octets under a tag. There are
  two exceptions: choices that are written as numbers, and extension entries under the keys of fixed
  fields.
* `binary_round_trip_fails`: setup allows both.
-/

namespace Rim

open Registry

/-- Records of every kind are read back from the binary form if no extension entry stands under the
key of a fixed field. Items come back if no choice inside an octet string is written as a number,
and octets do if no choice at all is. -/
theorem binary_round_trip {reg : Registry} {setup : List SetupCall}
    (hreg : withBuiltins.attempts setup = reg) (c : Codec) :
    (∀ (k : RecordKind) (x : k.Carrier), Graph.Portable x .binary (c.scope reg) →
      Graph.Clear x .binary → Graph.SealedPlain x reg.types →
      ∀ v, Record.encode .binary reg.types x = .ok v → Form.Sized .binary v →
        ∃ y, Record.decode .binary (c.scope reg) v = ⟨0, .ok y⟩ ∧ (y == x) = true) ∧
    (∀ (k : RecordKind) (x : k.Carrier), Graph.Portable x .binary (c.scope reg) →
      Graph.Clear x .binary → Graph.Plain x reg.types →
      ∀ bs, (reg.encode .binary x).1 = .ok bs → bs.length < UInt64.size →
        ∃ y, c.read reg .binary bs = ⟨0, .ok y⟩ ∧ (y == x) = true) ∧
    (∀ m : UnsignedCorim, Graph.Portable m .binary (c.scope reg) → Graph.Clear m .binary →
      Graph.Plain m reg.types →
      ∀ bs, m.toTagged reg.types = .ok bs → bs.length < UInt64.size →
        ∃ y, (c.decodeTagged reg bs).1 = .ok y ∧ (y == m) = true) ∧
    -- No value is read as a record that holds an entry under the key of a fixed field.
    (∀ (k : RecordKind) (x y : k.Carrier), Graph.Portable x .binary (c.scope reg) →
      ∀ v n, Record.decode .binary (c.scope reg) v = ⟨n, .ok y⟩ → (y == x) = true →
        Graph.Clear x .binary) ∧
    -- A choice is written as a number exactly if its item does not come back.
    ∀ (family : Family) (value : ChoiceValue) (item : Cbor), value.IsBase →
      Choice.encodeCbor reg.types family value = .ok item →
      (Cbor.write item).length < UInt64.size →
        ((Part.choice family value).Plain reg.types ↔ Cbor.parse (Cbor.write item) = .ok item) := by
  have hd : (c.scope reg).types.Distinct := hreg ▸ distinct_attempts (.inr rfl) setup
  refine ⟨fun k x hx hclear hplain => ?_, fun k x hx hclear hplain bs hbs hsize => ?_,
    fun m hm hclear hplain bs hbs hsize => ?_, fun k x y hx v n => k.clear_of_decode hx,
    fun family value item hbase => Part.plain_choice_iff hbase⟩
  · exact RecordKind.returns hd hx hclear fun _ => hplain
  · have hreturns := RecordKind.returns hd hx hclear fun _ => RecordKind.sealedPlain_of_plain hplain
    have hwrites := RecordKind.writes hx hclear fun _ => hplain
    exact Codec.read_encode hreturns hwrites (by decide) hbs fun _ => hsize
  · have hsealed : Graph.SealedPlain m reg.types := fun p hp => hplain p (m.sealedParts_subset hp)
    have hreturns := RecordKind.returns (k := .unsignedCorim) hd hm hclear fun _ => hsealed
    have hwrites := RecordKind.writes (k := .unsignedCorim) hm hclear fun _ => hplain
    exact Codec.decodeTagged_toTagged hreturns hwrites hbs hsize

/-- The manifest with a note comes back from items, from octets and from octets under its tag. -/
theorem binary_round_trip_note :
    withBuiltins.attempts noteProfileSetup = noteRegistry ∧
    (∃ v, Record.encode .binary noteRegistry.types noteManifest = .ok v ∧
      ∃ y, Record.decode .binary ((Codec.ofRegistry noteRegistry).scope noteRegistry) v =
        ⟨0, .ok y⟩ ∧ (y == noteManifest) = true) ∧
    (∃ bs, (noteRegistry.encode .binary noteManifest).1 = .ok bs ∧
      ∃ y, (Codec.ofRegistry noteRegistry).read noteRegistry .binary bs = ⟨0, .ok y⟩ ∧
        (y == noteManifest) = true) ∧
    ∃ bs, noteManifest.toTagged noteRegistry.types = .ok bs ∧
      ∃ y, ((Codec.ofRegistry noteRegistry).decodeTagged noteRegistry bs).1 = .ok y ∧
        (y == noteManifest) = true := by
  have hportable := portable_noteManifest .binary
  have hclear := clear_noteManifest .binary
  have hplain := plain_noteManifest
  obtain ⟨hitems, hoctets, htagged, -⟩ :=
    binary_round_trip attempts_noteProfileSetup (Codec.ofRegistry noteRegistry)
  refine ⟨attempts_noteProfileSetup, ⟨_, rfl, ?_⟩, ⟨_, rfl, ?_⟩, ⟨_, rfl, ?_⟩⟩
  · have hsealed : Graph.SealedPlain noteManifest noteRegistry.types :=
      RecordKind.sealedPlain_of_plain (k := .unsignedCorim) hplain
    exact hitems .unsignedCorim noteManifest hportable hclear hsealed _ rfl (by decide)
  · exact hoctets .unsignedCorim noteManifest hportable hclear hplain _ rfl (by decide)
  · exact htagged noteManifest hportable hclear hplain _ rfl (by decide)

/-! ## What setup allows -/

/-- Octets as identifiers of tags, under the tag of big numbers. -/
def bigNumberSetup : List SetupCall := [.registerType .tagId (.tag 2) .bytes]

/-- What the setup makes of the base registry. -/
def bigNumberRegistry : Registry := withBuiltins.attempts bigNumberSetup

/-- What a codec of the registry decodes with. -/
def bigNumberScope : Scope := (Codec.ofRegistry bigNumberRegistry).scope bigNumberRegistry

/-- An identity of one octet. -/
def shortIdentity : TagIdentity := { tagId := some (.bytes [1]) }

/-- A manifest with the identity in its only tag. -/
def shortManifest : UnsignedCorim := { tags := [{ tagIdentity := some shortIdentity }] }

theorem portable_shortIdentity (f : Form) : Graph.Portable shortIdentity f bigNumberScope := by
  refine List.forall_mem_singleton.2 ⟨trivial, fun v hv => ?_⟩
  obtain rfl := Option.some.inj hv
  exact ⟨_, rfl, trivial, rfl⟩

theorem portable_shortManifest (f : Form) : Graph.Portable shortManifest f bigNumberScope := by
  have hempty : ∀ shape? : Option ExtensionShape, ExtensionSet.empty.Portable shape? := fun _ =>
    ⟨.empty, fun e he => absurd he List.not_mem_nil, fun h => absurd rfl h⟩
  have hchoice := List.forall_mem_singleton.1 (portable_shortIdentity f)
  exact List.forall_iff_forall_mem.1 ⟨hchoice, hempty _, hempty _, hempty _⟩

/-- The identity of one octet is read as a number, from its octets and inside a manifest, so that
neither record comes back. The measured value with two names is written under one key twice, and is
not read at all. -/
theorem binary_round_trip_fails :
    (withBuiltins.attempts bigNumberSetup = bigNumberRegistry ∧
      Graph.Portable shortManifest .binary bigNumberScope ∧
      Graph.Portable shortIdentity .binary bigNumberScope ∧
      (∃ v e, Record.encode .binary bigNumberRegistry.types shortManifest = .ok v ∧
        Form.Sized .binary v ∧
        Record.decode (R := UnsignedCorim) .binary bigNumberScope v = ⟨0, .error e⟩) ∧
      ∃ bs e, (bigNumberRegistry.encode .binary shortIdentity).1 = .ok bs ∧
        ((Codec.ofRegistry bigNumberRegistry).decode TagIdentity bigNumberRegistry .binary bs).1 =
          .error e) ∧
    (withBuiltins.attempts shadowSetup = shadowRegistry ∧
      Graph.Portable shadowedMval .binary shadowScope ∧
      ∃ v, Record.encode .binary shadowRegistry.types shadowedMval = .ok v ∧
        Form.Sized .binary v ∧
        Record.decode (R := Mval) .binary shadowScope v =
          ⟨0, .error (.duplicateField "measurement value" "11")⟩) := by
  refine ⟨⟨rfl, portable_shortManifest _, portable_shortIdentity _, ?_, ⟨_, _, rfl, rfl⟩⟩,
    rfl, portable_shadowedMval _, _, rfl, by decide, rfl⟩
  -- The octet inside the tag is read as the number one, which is no type choice.
  exact ⟨_, _, rfl, by decide, rfl⟩

end Rim
