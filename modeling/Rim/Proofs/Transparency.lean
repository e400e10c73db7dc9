import Rim.Proofs.Record.Octets
import Rim.Proofs.Record.Shed

/-!
# Shapes tell extensions from unknown fields and nothing else

* `Codec.bare`: a codec without shapes.
* `shapes_transparent`: where a codec with shapes reads a record, the codec without any reads the
  record without its extensions, and passes over every extension entry, or refuses the first of them
  if it is strict.
-/

namespace Rim

/-- The codec without any shape in force. -/
def Codec.bare (c : Codec) : Codec := { c with bindings := .empty }

/-- Octets that are read with shapes are read without them as the record without its extensions. -/
theorem Codec.read_sheds {c : Codec} (hsound : c.bindings.Sound) {reg : Registry} {k : RecordKind}
    {f : Form} {bs : Bytes}
    (hprofile : ∀ v, f.parse bs = .ok v → k.NamesNoProfile f (c.scope reg) v) {r : k.Carrier}
    {n : Nat} (h : c.read reg f bs = ⟨n, .ok r⟩) :
    (c.bare.read reg f bs : Decoding k.Carrier).Sheds c.strict n (Graph.entryCount r)
      (Graph.strip r) := by
  obtain ⟨v, hv, hread⟩ :=
    Decoding.ofExcept_bind_eq_ok_iff.1 (Decoding.mapError_eq_ok_iff.1 h)
  have hscope : (c.scope reg).bindings.Sound := hsound
  have hsheds := RecordKind.decode_sheds hscope (hprofile v hv) hread
  exact (Decoding.Sheds.ofExcept_bind hv hsheds).mapError fun _ => rfl

/-- Take any input, in either form, that names no registered profile and is read with some shapes in
force. Without them it is read as the record without its extensions, with one more field passed over
for each extension entry; in strict mode, if there is any entry, it is refused for an unknown
field. -/
theorem shapes_transparent {c : Codec} (hc : c.bindings.Built fun _ => True) (reg : Registry)
    (k : RecordKind) (f : Form) :
    (∀ (v : f.Value) (n : Nat) (r : k.Carrier), k.NamesNoProfile f (c.scope reg) v →
      Record.decode f (c.scope reg) v = ⟨n, .ok r⟩ →
      (c.strict = false → Record.decode f (c.bare.scope reg) v =
        ⟨n + Graph.entryCount r, .ok (Graph.strip r)⟩) ∧
      (c.strict = true → Graph.entryCount r = 0 →
        Record.decode f (c.bare.scope reg) v = ⟨n, .ok (Graph.strip r)⟩) ∧
      (c.strict = true → Graph.entryCount r ≠ 0 → ∃ e owner key,
        (Record.decode f (c.bare.scope reg) v : Decoding k.Carrier).outcome = .error e ∧
          e.root = .unknownField owner key)) ∧
    (∀ (bs : Bytes) (n : Nat) (r : k.Carrier),
      (∀ v, f.parse bs = .ok v → k.NamesNoProfile f (c.scope reg) v) →
      c.read reg f bs = ⟨n, .ok r⟩ →
      (c.strict = false →
        c.bare.read reg f bs = ⟨n + Graph.entryCount r, .ok (Graph.strip r)⟩) ∧
      (c.strict = true → Graph.entryCount r = 0 →
        c.bare.read reg f bs = ⟨n, .ok (Graph.strip r)⟩) ∧
      (c.strict = true → Graph.entryCount r ≠ 0 → ∃ e owner key,
        (c.bare.read reg f bs : Decoding k.Carrier).outcome = .error e ∧
          e.root = .unknownField owner key)) := by
  have hsound : c.bindings.Sound := hc.sound
  constructor
  · intro v n r hprofile h
    have hscope : (c.scope reg).bindings.Sound := hsound
    exact (RecordKind.decode_sheds hscope hprofile h).spec
  · intro bs n r hprofile h
    exact (Codec.read_sheds hsound hprofile h).spec

/-! ## A manifest and a tag with notes -/

/-- Manifests and tags with notes. -/
def wideShapes : ExtensionMap := noteShapes.put (.own "comid" (Comid.fields.map (·.key))) noteShape

theorem built_wideShapes : wideShapes.Built fun _ => True := by
  have hshape : ExtensionShape.ofFields noteShape.fields = .ok noteShape := rfl
  have hmanifests : ExtensionMap.empty.replace (.own "corim" (UnsignedCorim.fields.map (·.key)))
    noteShape = .ok noteShapes := rfl
  have htags : noteShapes.replace (.own "comid" (Comid.fields.map (·.key))) noteShape =
    .ok wideShapes := rfl
  exact .replace (.replace .empty trivial hshape hmanifests) trivial hshape htags

/-- A manifest with a note and with a tag with a note. -/
def notedManifest : UnsignedCorim where
  id := some (.text "rim")
  tags := [{ extensions := (ExtensionSet.bound noteShape).put "note" (.string "second") }]
  extensions := (ExtensionSet.bound noteShape).put "note" (.string "first")

/-- The manifest on the wire, with some entries more. -/
def notedInput (more : List (Cbor × Cbor)) : Cbor :=
  .map (more ++ [(.uint 100, .text "first"), (.uint 0, .text "rim"),
    (.uint 1, .array [.tag 506 (.bytes (Cbor.write (.map [(.uint 100, .text "second")])))])])

/-- Without shapes both notes are passed over, next to a field that is unknown anyway, and refused
in strict mode. -/
theorem shapes_transparent_notes :
    Record.decode .binary (Codec.scope ⟨wideShapes, false⟩ .withBuiltins)
      (notedInput [(.uint 9, .null)]) = ⟨1, .ok notedManifest⟩ ∧
    Record.decode .binary (Codec.scope ⟨.empty, false⟩ .withBuiltins)
      (notedInput [(.uint 9, .null)]) = ⟨3, .ok (Graph.strip notedManifest)⟩ ∧
    Codec.read ⟨wideShapes, true⟩ .withBuiltins .binary (Cbor.write (notedInput [])) =
      ⟨0, .ok notedManifest⟩ ∧
    ∃ e owner key, (Codec.read ⟨.empty, true⟩ .withBuiltins .binary
      (Cbor.write (notedInput [])) : Decoding UnsignedCorim).outcome = .error e ∧
        e.root = .unknownField owner key := by
  have hprofile : ∀ (c : Codec) (v : Cbor),
      RecordKind.unsignedCorim.NamesNoProfile .binary (c.scope .withBuiltins) v :=
    fun c v entries hentries id hid => rfl
  have hlenient : Record.decode .binary (Codec.scope ⟨wideShapes, false⟩ .withBuiltins)
    (notedInput [(.uint 9, .null)]) = ⟨1, .ok notedManifest⟩ := rfl
  have hstrict : Codec.read ⟨wideShapes, true⟩ .withBuiltins .binary
    (Cbor.write (notedInput [])) = ⟨0, .ok notedManifest⟩ := rfl
  obtain ⟨hvalues, -⟩ := shapes_transparent (c := ⟨wideShapes, false⟩) built_wideShapes
    .withBuiltins .unsignedCorim .binary
  obtain ⟨-, hoctets⟩ := shapes_transparent (c := ⟨wideShapes, true⟩) built_wideShapes
    .withBuiltins .unsignedCorim .binary
  have hentries : Graph.entryCount notedManifest = 2 := rfl
  refine ⟨hlenient, (hvalues _ _ _ (hprofile _ _) hlenient).1 rfl, hstrict, ?_⟩
  refine (hoctets _ _ _ (fun v _ => hprofile _ v) hstrict).2.2 rfl fun hnone => ?_
  have htwo : Graph.entryCount notedManifest = 0 := hnone
  rw [hentries] at htwo
  cases htwo

end Rim
