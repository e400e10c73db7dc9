import Rim.Proofs.OwnProfile
import Rim.Proofs.Schema.Order

/-!
# Decoding does not depend on the order of members

* `member_order_immaterial`: a document whose members are put in another order is read as the same
  record, or not read in either order. One in which a key repeats or cannot be read is not read in
  any order.
-/

namespace Rim

/-- Every shape that a document may put in force is distinct. -/
theorem Codec.distinct_of_shape? {allowed : ExtensionPoint → Prop} {c : Codec} {reg : Registry}
    (hc : c.bindings.Built allowed) (hreg : ∀ p ∈ reg.profiles, p.shapes.Built allowed) {R : Type}
    [Record R] (id : Option ProfileId) {shape : ExtensionShape}
    (h : Record.shape? R ((c.scope reg).scopedTo id).bindings = some shape) : shape.Distinct := by
  rw [Codec.scopedTo_eq] at h
  obtain ⟨point, -, hfind⟩ := Option.bind_eq_some_iff.1 h
  cases hp : id.bind reg.profile? with
  | none =>
    rw [hp] at hfind
    exact hc.sound.distinct_of_find? hfind
  | some p =>
    rw [hp] at hfind
    obtain ⟨id, -, hid⟩ := Option.bind_eq_some_iff.1 hp
    exact (hreg p (Registry.mem_of_profile? hid).1).sound.distinct_of_find? hfind

/-- Take a codec with shapes that have been built, over profiles with such shapes, and two values
whose members are the same but for their order. Both are read as the same record, down to its shapes
and entries, with as many unknown fields passed over, or neither is read. If a key among the members
repeats or cannot be read, neither is. -/
theorem member_order_immaterial {allowed : ExtensionPoint → Prop} {c : Codec} {reg : Registry}
    (hc : c.bindings.Built allowed) (hreg : ∀ p ∈ reg.profiles, p.shapes.Built allowed)
    (k : RecordKind) (f : Form) {v v' : f.Value} {entries entries' : List (f.RawKey × f.Value)}
    (hentries : f.members v = .ok entries) (hentries' : f.members v' = .ok entries')
    (hperm : entries.Perm entries') :
    (∀ (n : Nat) (r : k.Carrier), Record.decode f (c.scope reg) v = ⟨n, .ok r⟩ ↔
      Record.decode f (c.scope reg) v' = ⟨n, .ok r⟩) ∧
    (¬ f.KeysOnce entries →
      (∃ e, (Record.decode f (c.scope reg) v : Decoding k.Carrier).outcome = .error e) ∧
        ∃ e, (Record.decode f (c.scope reg) v' : Decoding k.Carrier).outcome = .error e) := by
  have hdistinct : ∀ id {shape},
      Record.shape? k.Carrier ((c.scope reg).scopedTo id).bindings = some shape → shape.Distinct :=
    fun id _ h => Codec.distinct_of_shape? hc hreg id h
  -- Only what is read can have repeated or unreadable keys, and nothing is.
  have hfails : ∀ {w : f.Value} {members : List (f.RawKey × f.Value)}, f.members w = .ok members →
      ¬ f.KeysOnce members →
      ∃ e, (Record.decode f (c.scope reg) w : Decoding k.Carrier).outcome = .error e := by
    intro w members hmembers hkeys
    cases hout : (Record.decode f (c.scope reg) w : Decoding k.Carrier).outcome with
    | error e => exact ⟨e, rfl⟩
    | ok r =>
      exact absurd (Record.keysOnce_of_decode hmembers (Decoding.eq_of_outcome hout)) hkeys
  refine ⟨fun n r => ⟨?_, ?_⟩, fun hkeys => ⟨hfails hentries hkeys, hfails hentries' ?_⟩⟩
  · exact Record.decode_perm hdistinct hentries hentries' hperm
  · exact Record.decode_perm hdistinct hentries' hentries hperm.symm
  · exact fun h => hkeys (h.perm hperm.symm)

/-- A manifest on the wire with its profile before its tag. -/
def noteBehind (uri : String) : Cbor :=
  .map [(.uint 3, .tag 32 (.text uri)),
    (.uint 1, .array [.tag 506 (.bytes (Cbor.write (.map [(.uint 100, .text "first")])))])]

/-- A manifest on the wire that names its profile twice. -/
def profileTwice (uri : String) : Cbor :=
  .map [(.uint 3, .tag 32 (.text uri)), (.uint 3, .tag 32 (.text uri))]

/-- A profile selects the shapes of a tag from before it as from behind it, and a strict codec finds
the note of the tag. A profile that is named twice fails the manifest. -/
theorem member_order_immaterial_note :
    Record.decode .binary (Codec.scope ⟨noteShapes, true⟩ tagNoteRegistry)
      (noteBefore "urn:note") = ⟨0, .ok notedTag⟩ ∧
    Record.decode .binary (Codec.scope ⟨noteShapes, true⟩ tagNoteRegistry)
      (noteBehind "urn:note") = ⟨0, .ok notedTag⟩ ∧
    ∃ e, (Record.decode .binary (Codec.scope ⟨noteShapes, true⟩ tagNoteRegistry)
      (profileTwice "urn:note") : Decoding UnsignedCorim).outcome = .error e := by
  have hshape : ExtensionShape.ofFields noteShape.fields = .ok noteShape := rfl
  have hc : (Codec.mk noteShapes true).bindings.Built ExtensionPoint.Genuine :=
    .replace .empty (by decide : ExtensionPoint.corims.Genuine) hshape rfl
  have hreg : ∀ p ∈ tagNoteRegistry.profiles, p.shapes.Built ExtensionPoint.Genuine := by
    intro p hp
    obtain rfl := List.mem_singleton.1 hp
    exact .replace .empty (by decide : ExtensionPoint.comids.Genuine) hshape rfl
  have hbefore : Record.decode .binary (Codec.scope ⟨noteShapes, true⟩ tagNoteRegistry)
    (noteBefore "urn:note") = ⟨0, .ok notedTag⟩ := rfl
  have hmembers : Form.members .binary (noteBefore "urn:note") = .ok _ := rfl
  have hmembers' : Form.members .binary (noteBehind "urn:note") = .ok _ := rfl
  have htwice : Form.members .binary (profileTwice "urn:note") = .ok _ := rfl
  obtain ⟨hsame, -⟩ := member_order_immaterial hc hreg .unsignedCorim .binary hmembers hmembers'
    (List.Perm.swap _ _ [])
  obtain ⟨-, hfails⟩ := member_order_immaterial hc hreg .unsignedCorim .binary htwice htwice
    (List.Perm.refl _)
  refine ⟨hbefore, (hsame 0 notedTag).1 hbefore, (hfails fun honce => ?_).1⟩
  have hne := honce.distinct
  simp at hne

end Rim
