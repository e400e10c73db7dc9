import Rim.Proofs.Record.RoundTrip
import Rim.Proofs.Setup
import Rim.Codec

/-!
# Every kind of record is read back, from values and from octets

* `Graph.Portable`: every part of a record is carried through a form in the scope that the profile
  of the record puts in force.
* `Graph.Clear`: no extension entry stands under the key of a fixed field.
* `Graph.Plain`, `Graph.SealedPlain`: no choice is written as a number.
* `RecordKind.returns`, `RecordKind.writes`: the laws of all kinds of records together.
* `Codec.read_encode`, `Codec.decodeTagged_toTagged`: the same for octets.
-/

namespace Rim

namespace Graph

variable {R : Type} [Graph R]

/-- Every part is carried through a form. The shapes are those of the profile that the record
names, if it names one that is registered, and those of the scope otherwise. -/
def Portable (r : R) (f : Form) (sc : Scope) : Prop :=
  ∀ p ∈ parts r, p.Portable f (sc.scopedTo (profile? r))

/-- In a form no entry of an extension set stands under the key of a fixed field of its record. A
point that carries the fixed fields of its record lets no such shape be bound. -/
def Clear (r : R) (f : Form) : Prop := ∀ p ∈ parts r, p.Clear f

theorem restorable {r : R} {f : Form} {sc : Scope} (h : Portable r f sc) (hclear : Clear r f) :
    ∀ p ∈ parts r, p.Restorable f (sc.scopedTo (profile? r)) := fun p hp => ⟨h p hp, hclear p hp⟩

/-- No choice is written as a number in the binary form. -/
def Plain (r : R) (types : TypeTable) : Prop := ∀ p ∈ parts r, p.Plain types

/-- No choice in an octet string is written as a number in the binary form. -/
def SealedPlain (r : R) (types : TypeTable) : Prop := ∀ p ∈ sealedParts r, p.Plain types

end Graph

namespace RecordKind

variable {k : RecordKind} {f : Form} {sc : Scope}

theorem sealedParts_subset (x : k.Carrier) : Graph.sealedParts x ⊆ Graph.parts x := by
  cases k with
  | unsignedCorim => exact UnsignedCorim.sealedParts_subset x
  | _ => exact fun _ hp => absurd hp List.not_mem_nil

theorem sealedPlain_of_plain {x : k.Carrier} {types : TypeTable} (h : Graph.Plain x types) :
    Graph.SealedPlain x types := fun p hp => h p (sealedParts_subset x hp)

/-- A record of any kind is read back. -/
theorem returns (hd : sc.types.Distinct) {x : k.Carrier} (h : Graph.Portable x f sc)
    (hclear : Graph.Clear x f) (hplain : f = .binary → Graph.SealedPlain x sc.types) :
    (Record.wire k.Carrier).Returns f sc x := by
  have hparts := Graph.restorable h hclear
  cases k with
  | comid => exact Comid.returns hd hparts
  | tagIdentity => exact TagIdentity.returns hd hparts
  | entity => exact Entity.returns hd hparts
  | triples => exact Triples.returns hd hparts
  | environment => exact Environment.returns hd hparts
  | class_ => exact Class.returns hd hparts
  | measurement => exact Measurement.returns hparts
  | mval => exact Mval.returns hparts
  | version => exact Version.returns x
  | unsignedCorim => exact UnsignedCorim.returns hd hparts hplain
  | meta_ => exact Meta.returns hparts
  | signer => exact Signer.returns x
  | validity => exact Validity.returns hparts

/-- A record of any kind nests thirteen levels at most. -/
theorem writes {x : k.Carrier} (h : Graph.Portable x f sc) (hclear : Graph.Clear x f)
    (hplain : f = .binary → Graph.Plain x sc.types) :
    (Record.wire k.Carrier).Writes f sc.types 13 x := by
  have hparts := Graph.restorable h hclear
  cases k with
  | comid => exact (Comid.writes hparts hplain).mono (by decide)
  | tagIdentity => exact (TagIdentity.writes hparts hplain).mono (by decide)
  | entity => exact (Entity.writes hparts hplain).mono (by decide)
  | triples => exact (Triples.writes hparts hplain).mono (by decide)
  | environment => exact (Environment.writes hparts hplain).mono (by decide)
  | class_ => exact (Class.writes hparts hplain).mono (by decide)
  | measurement => exact (Measurement.writes hparts).mono (by decide)
  | mval => exact (Mval.writes hparts).mono (by decide)
  | version => exact (Version.writes x).mono (by decide)
  | unsignedCorim =>
    rw [← sc.types_scopedTo (UnsignedCorim.profile x)] at hplain ⊢
    exact UnsignedCorim.writes hparts hplain
  | meta_ => exact (Meta.writes x).mono (by decide)
  | signer => exact (Signer.writes x).mono (by decide)
  | validity => exact (Validity.writes x).mono (by decide)

end RecordKind

/-! ## Octets -/

section

variable {R : Type} [Record R] {f : Form}

/-- What is encoded is the valid record. -/
theorem Record.encodeValid_cases {types : TypeTable} {r : R} {v : f.Value}
    (h : Record.encodeValid f types r = .ok v) :
    Record.validate r = .ok () ∧ Record.encode f types r = .ok v := by
  obtain ⟨_, hvalid, hv⟩ := Except.bind_eq_ok_iff.1 (Except.mapError_eq_ok_iff.1 h)
  exact ⟨Except.mapError_eq_ok_iff.1 hvalid, hv⟩

/-- The octets of a record are printed of its value. -/
theorem Registry.encode_cases {reg : Registry} {r : R} {bs : Bytes}
    (h : (reg.encode f r).1 = .ok bs) :
    ∃ v, Record.encode f reg.types r = .ok v ∧ f.print v = bs := by
  obtain ⟨v, hv, hbs⟩ := Except.map_eq_ok_iff.1 h
  exact ⟨v, (Record.encodeValid_cases hv).2, hbs⟩

/-- An invalid record is refused with its violation, whatever the form. -/
theorem Registry.encode_of_invalid (reg : Registry) (f : Form) {r : R} {e : ValidationError}
    (h : Record.validate r = .error e) :
    (reg.encode f r).1 = .error (.record (Record.name R) (.invalid e)) := by
  show (Except.mapError _ ((Record.validate r).mapError .invalid >>= fun _ =>
    Record.encode f reg.types r)).map f.print = _
  rw [h]
  rfl

/-- A record that is read back from its value is read back from its octets. -/
theorem Codec.read_encode [BEq R] {c : Codec} {reg : Registry} {r : R} {d : Nat}
    (hreturns : (Record.wire R).Returns f (c.scope reg) r)
    (hwrites : (Record.wire R).Writes f reg.types d r) (hd : d ≤ f.maxDepth) {bs : Bytes}
    (hbs : (reg.encode f r).1 = .ok bs) (hsize : f = .binary → bs.length < UInt64.size) :
    ∃ y, c.read reg f bs = ⟨0, .ok y⟩ ∧ (y == r) = true := by
  obtain ⟨v, hv, rfl⟩ := Registry.encode_cases hbs
  have hsized : f.Sized v := by
    cases f with
    | binary => exact hsize rfl
    | text => trivial
  obtain ⟨y, hy, hsame⟩ := hreturns v hv hsized
  refine ⟨y, Decoding.mapError_eq_ok_iff.2 ?_, hsame⟩
  rw [Form.parse_print ((hwrites v hv).mono hd) hsized]
  exact Decoding.bind_eq_ok_iff.2 ⟨0, 0, v, rfl, hy, rfl⟩

end

/-- A manifest that is read back from its value is read back from its octets under the tag. -/
theorem Codec.decodeTagged_toTagged {c : Codec} {reg : Registry} {m : UnsignedCorim}
    (hreturns : (Record.wire UnsignedCorim).Returns .binary (c.scope reg) m)
    (hwrites : (Record.wire UnsignedCorim).Writes .binary reg.types 13 m) {bs : Bytes}
    (hbs : m.toTagged reg.types = .ok bs) (hsize : bs.length < UInt64.size) :
    ∃ y, (c.decodeTagged reg bs).1 = .ok y ∧ (y == m) = true := by
  unfold UnsignedCorim.toTagged at hbs
  cases hvalid : Record.encodeValid .binary reg.types m with
  | error e =>
    rw [hvalid] at hbs
    cases hbs
  | ok v =>
    rw [hvalid] at hbs
    obtain rfl := Except.ok.inj hbs
    have hv := (Record.encodeValid_cases hvalid).2
    -- The tag adds a head to the octets of the item.
    have hsized : Form.Sized .binary v := by
      simp only [Cbor.write, List.length_append] at hsize
      show (Cbor.write v).length < UInt64.size
      omega
    obtain ⟨y, hy, hsame⟩ := hreturns v hv hsized
    have hreadable : Form.Readable .binary Form.binary.maxDepth (.tag TagNumber.unsignedCorim v) :=
      Form.Readable.mono (readable_tag (by decide) (hwrites v hv)) (by decide)
    refine ⟨y, ?_, hsame⟩
    have hparse : Cbor.parse (Cbor.write (.tag TagNumber.unsignedCorim v)) =
      .ok (.tag TagNumber.unsignedCorim v) := Form.parse_print hreadable hsize
    have hread : (do
        let v ← Decoding.ofExcept (Cbor.parse (Cbor.write (.tag TagNumber.unsignedCorim v)))
        let content ← Decoding.ofExcept (Cbor.expectTag TagNumber.unsignedCorim v)
        Record.decode .binary (c.scope reg) content : Decoding UnsignedCorim) = ⟨0, .ok y⟩ := by
      rw [hparse]
      exact Decoding.bind_eq_ok_iff.2 ⟨0, 0, _, rfl,
        Decoding.bind_eq_ok_iff.2 ⟨0, 0, v, rfl, hy, rfl⟩, rfl⟩
    unfold Codec.decodeTagged
    rw [Decoding.mapError_eq_ok_iff.2 hread]
    rfl

/-! ## A manifest of a profile -/

/-- In the base schema no choice is written as a number. -/
theorem Part.plain_builtin (family : Family) (value : ChoiceValue) :
    (Part.choice family value).Plain TypeTable.builtin := by
  rintro v number payload hv hnumber - ⟨hbig, -⟩
  have hmem := (TypeTable.mem_of_byTypeTag? hv).1
  simp only [TypeTable.builtin, List.mem_cons, List.not_mem_nil, or_false] at hmem
  rcases hmem with rfl | rfl | rfl | rfl | rfl | rfl | rfl | rfl <;> cases hnumber <;>
    exact absurd hbig (by decide)

/-- A shape with a note. -/
def noteShape : ExtensionShape := ⟨[.plain "note" 100 .string]⟩

/-- Manifests with a note. -/
def noteShapes : ExtensionMap :=
  ExtensionMap.empty.put (.own "corim" (UnsignedCorim.fields.map (·.key))) noteShape

/-- The base registry with a profile whose manifests have a note. -/
def noteRegistry : Registry :=
  { Registry.withBuiltins with profiles := [⟨.uri "urn:note", noteShapes, none⟩] }

/-- A manifest of the profile, with a note and one tag. -/
def noteManifest : UnsignedCorim where
  id := some (.text "rim")
  tags :=
    [{ tagIdentity :=
         some { tagId := some (.uuid ⟨List.replicate 16 1, rfl⟩), tagVersion := some 7 }
       entities := [{ name := some (.text "maker"), roles := [.tagCreator] }]
       triples :=
        { referenceValues :=
            [{ environment := { class_ := some { classId := some (.bytes [1, 2]) } }
               measurements := [{ value := some { serialNumber := some "1" } }] }] } }]
  profile := some (.uri "urn:note")
  extensions := (ExtensionSet.bound noteShape).put "note" (.string "first")

/-- The profile is registered. -/
def noteProfileSetup : List SetupCall := [.registerProfile ⟨.uri "urn:note", noteShapes, none⟩]

theorem attempts_noteProfileSetup :
    Registry.withBuiltins.attempts noteProfileSetup = noteRegistry := rfl

/-- The manifest is carried through both forms. -/
theorem portable_noteManifest (f : Form) :
    Graph.Portable noteManifest f ((Codec.ofRegistry noteRegistry).scope noteRegistry) := by
  unfold Graph.Portable
  -- The profile is registered, so its shapes are in force in the whole manifest.
  generalize hsc : ((Codec.ofRegistry noteRegistry).scope noteRegistry).scopedTo _ = sc
  have hchoice : ∀ family (value : ChoiceValue), value.IsBase →
      (Part.choice family value).Portable f sc := by
    intro family value hbase
    refine ⟨hbase, fun v hv => Variant.isBase_of_mem_builtin ?_⟩
    rw [← hsc] at hv
    exact (TypeTable.mem_of_byTypeTag? hv).1
  have hempty : ∀ point, (Part.extensions point .empty).Portable f sc := fun point =>
    ⟨.empty, fun e he => absurd he List.not_mem_nil, fun h => absurd rfl h⟩
  have hnote : (Part.extensions .corims noteManifest.extensions).Portable f sc := by
    have hshape : ExtensionShape.ofFields noteShape.fields = .ok noteShape := rfl
    have hset : (ExtensionSet.empty.bind noteShape).set "note" (.string "first") =
      .ok noteManifest.extensions := rfl
    refine ⟨.set (.bind .empty hshape) hset, fun e he => ?_, fun _ => ?_⟩
    · obtain rfl := List.mem_singleton.1 he
      trivial
    · rw [← hsc]
      rfl
  refine List.forall_iff_forall_mem.1 ?_
  exact ⟨hchoice _ _ trivial, hchoice _ _ trivial, hchoice _ _ trivial, hempty _,
    hchoice _ _ trivial, hempty _, hempty _, hempty _, hempty _, ⟨"urn:note", rfl⟩, hnote⟩

/-- The note stands under a key of its own. -/
theorem clear_noteManifest (f : Form) : Graph.Clear noteManifest f := by
  have hempty : ∀ point, (Part.extensions point .empty).Clear f := fun _ _ hz =>
    absurd hz List.not_mem_nil
  have hnote : (Part.extensions .corims noteManifest.extensions).Clear f := by
    refine List.forall_mem_singleton.2 ?_
    cases f <;> decide
  refine List.forall_iff_forall_mem.1 ?_
  exact ⟨trivial, trivial, trivial, hempty _, trivial, hempty _, hempty _, hempty _, hempty _,
    trivial, hnote⟩

theorem plain_noteManifest : Graph.Plain noteManifest noteRegistry.types := by
  refine List.forall_iff_forall_mem.1 ?_
  exact ⟨Part.plain_builtin _ _, Part.plain_builtin _ _, Part.plain_builtin _ _, trivial,
    Part.plain_builtin _ _, trivial, trivial, trivial, trivial, trivial, trivial⟩

end Rim
