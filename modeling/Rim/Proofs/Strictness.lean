import Rim.Proofs.OwnProfile

/-!
# Strict codecs and lenient ones

A strict codec fails where a lenient one passes an unknown field over. So two runs over the same
input go through the same steps up to the first unknown field, and if there is none to the end.

* `Decoding.MadeStrict`: what strict mode makes of a decode.
* `RecordKind.decode_madeStrict`: it makes that of the decode of every record.
* `StrictAgrees`: two decodes on a registry have the same result as long as nothing is passed over,
  and the strict one passes nothing over.
* `strict_agrees`: strict and lenient codecs agree on values, on octets in either form, and on
  manifests under their tag.
-/

namespace Rim

/-! ## Decodes -/

namespace Decoding

/-- What strict mode makes of a lenient decode. -/
inductive MadeStrict {α : Type} : (lenient strict : Decoding α) → Prop where
  /-- A decode that passes nothing over is the same, and fails for the same reason. -/
  | same (outcome : Except DecodeError α) : MadeStrict ⟨0, outcome⟩ ⟨0, outcome⟩
  /-- One that passes something over is refused, whatever comes of it later. -/
  | refused {n : Nat} {outcome : Except DecodeError α} {e : DecodeError} {owner key : String}
      (hskipped : n ≠ 0) (hroot : e.root = .unknownField owner key) :
      MadeStrict ⟨n, outcome⟩ ⟨0, .error e⟩

namespace MadeStrict

variable {α β : Type}

/-- What has been passed over stays passed over in the steps after. -/
theorem bind {d d' : Decoding α} {next next' : α → Decoding β} (h : MadeStrict d d')
    (hnext : ∀ a, MadeStrict (next a) (next' a)) : MadeStrict (d >>= next) (d' >>= next') := by
  cases h with
  | same outcome =>
    cases outcome with
    | error e => exact .same (.error e)
    | ok a => simpa only [bind_ok, Nat.zero_add] using hnext a
  | @refused n outcome e owner key hskipped hroot =>
    rw [bind_error]
    cases outcome with
    | error e' => exact .refused hskipped hroot
    | ok a =>
      rw [bind_ok]
      exact .refused (by omega) hroot

theorem mapError {d d' : Decoding α} {wrap : DecodeError → DecodeError}
    (hwrap : ∀ e, (wrap e).root = e.root) (h : MadeStrict d d') :
    MadeStrict (d.mapError wrap) (d'.mapError wrap) := by
  cases h with
  | same outcome => exact .same (outcome.mapError wrap)
  | refused hskipped hroot => exact .refused hskipped ((hwrap _).trans hroot)

/-- Strict mode, as something that the steps of a decode keep. -/
def comparison : Comparison where
  Holds := MadeStrict
  ofExcept := .same
  bind := bind
  mapError _ hwrap h := h.mapError hwrap

end MadeStrict

end Decoding

open Decoding (MadeStrict)

/-- Scopes that differ only in the treatment of unknown fields compare so. -/
theorem Scope.related_strict (sc : Scope) :
    ({ sc with strict := false } : Scope).Related MadeStrict.comparison
      { sc with strict := true } where
  bindings := rfl
  reads _ _ _ := .same _
  writes _ _ _ _ h := h
  skips _ _ := .refused Nat.one_ne_zero rfl

/-- Every record of every kind is decoded in strict mode as in lenient mode, or refused. Both modes
know the same profiles, so they read a manifest with the same shapes. -/
theorem RecordKind.decode_madeStrict (k : RecordKind) (f : Form) (sc : Scope) (v : f.Value) :
    MadeStrict (Record.decode f { sc with strict := false } v : Decoding k.Carrier)
      (Record.decode f { sc with strict := true } v) :=
  k.decode_related sc.related_strict fun _ _ _ _ => rfl

/-! ## Decodes on a registry -/

@[simp] theorem Counters.noteDecode_unknownFieldsSkipped (c : Counters) (f : Form) (consumed : Nat)
    (ok : Bool) : (c.noteDecode f consumed ok).unknownFieldsSkipped = c.unknownFieldsSkipped := by
  unfold noteDecode
  cases ok <;> cases f <;> rfl

/-- How a strict decode on a registry agrees with a lenient one that passes some unknown fields
over. Each of the decodes leaves a registry. -/
structure StrictAgrees {α : Type} (reg : Registry) (skipped : Nat)
    (lenient strict : Except DecodeError α × Registry) : Prop where
  /-- The strict decode succeeds exactly if the lenient one does without passing anything over, and
  with the same result. -/
  ok_iff : ∀ a, strict.1 = .ok a ↔ lenient.1 = .ok a ∧ skipped = 0
  /-- If nothing is passed over the decodes cannot be told apart, also in their errors and in the
  telemetry. -/
  eq_of_zero : skipped = 0 → strict = lenient
  /-- Else the strict decode tells of an unknown field. -/
  refused : skipped ≠ 0 → ∃ e owner key, strict.1 = .error e ∧ e.root = .unknownField owner key
  /-- The strict decode counts no unknown field. -/
  silent : strict.2.counters.unknownFieldsSkipped = reg.counters.unknownFieldsSkipped
  /-- The lenient decode counts each one that it passes over. -/
  counted : lenient.2.counters.unknownFieldsSkipped =
    reg.counters.unknownFieldsSkipped + UInt64.ofNat skipped

/-- Decodes of which the second is the first made strict agree, in whatever way the registry takes
note of them that leaves the count of unknown fields alone. -/
theorem Decoding.MadeStrict.agrees {α : Type} {d d' : Decoding α} (h : MadeStrict d d')
    (reg : Registry) (note : Except DecodeError α → Registry → Registry)
    (hnote : ∀ result reg, (note result reg).counters.unknownFieldsSkipped =
      reg.counters.unknownFieldsSkipped) :
    StrictAgrees reg d.skipped (d.outcome, note d.outcome (reg.noteSkipped d.skipped))
      (d'.outcome, note d'.outcome (reg.noteSkipped d'.skipped)) := by
  have hstrict : d'.skipped = 0 := by cases h <;> rfl
  constructor
  · intro a
    cases h with
    | same outcome => simp
    | refused hskipped _ => simp [hskipped]
  · intro hzero
    cases h with
    | same outcome => rfl
    | refused hskipped _ => exact absurd hzero hskipped
  · intro hskipped
    cases h with
    | same outcome => exact absurd rfl hskipped
    | refused _ hroot => exact ⟨_, _, _, rfl, hroot⟩
  · rw [hstrict, hnote]
    exact UInt64.add_zero _
  · exact hnote _ _

/-- Take the same shapes in force for a strict codec and a lenient one. The strict codec decodes a
record of any kind exactly if the lenient one does without passing an unknown field over, with the
same result, and it never counts an unknown field: from values in either form, from octets, and from
octets under the tag of manifests. -/
theorem strict_agrees (shapes : ExtensionMap) (reg : Registry) (k : RecordKind) (f : Form) :
    (∀ v : f.Value, StrictAgrees reg
      (Record.decode f (Codec.scope ⟨shapes, false⟩ reg) v : Decoding k.Carrier).skipped
      (Codec.run reg (Record.decode f (Codec.scope ⟨shapes, false⟩ reg) v : Decoding k.Carrier))
      (Codec.run reg (Record.decode f (Codec.scope ⟨shapes, true⟩ reg) v))) ∧
    (∀ bs : Bytes, StrictAgrees reg
      (Codec.read ⟨shapes, false⟩ reg f bs : Decoding k.Carrier).skipped
      (Codec.decode k.Carrier ⟨shapes, false⟩ reg f bs)
      (Codec.decode k.Carrier ⟨shapes, true⟩ reg f bs)) ∧
    ∀ bs : Bytes, StrictAgrees reg (Codec.readTagged ⟨shapes, false⟩ reg bs).skipped
      (Codec.decodeTagged ⟨shapes, false⟩ reg bs) (Codec.decodeTagged ⟨shapes, true⟩ reg bs) := by
  have hvalue : ∀ (k : RecordKind) (f : Form) (v : f.Value),
      MadeStrict (Record.decode f (Codec.scope ⟨shapes, false⟩ reg) v : Decoding k.Carrier)
        (Record.decode f (Codec.scope ⟨shapes, true⟩ reg) v) :=
    fun k f v => k.decode_madeStrict f (Codec.scope ⟨shapes, false⟩ reg) v
  refine ⟨fun v => ?_, fun bs => ?_, fun bs => ?_⟩
  · exact (hvalue k f v).agrees reg (fun _ reg => reg) fun _ _ => rfl
  · have hread : MadeStrict (Codec.read ⟨shapes, false⟩ reg f bs : Decoding k.Carrier)
        (Codec.read ⟨shapes, true⟩ reg f bs) := by
      refine MadeStrict.mapError (fun _ => rfl) ?_
      exact MadeStrict.comparison.ofExcept_bind _ fun v _ => hvalue k f v
    refine hread.agrees reg (fun result reg =>
      { reg with counters := reg.counters.noteDecode f bs.length result.isOk }) fun _ _ => ?_
    exact Counters.noteDecode_unknownFieldsSkipped ..
  · have hread : MadeStrict (Codec.readTagged ⟨shapes, false⟩ reg bs)
        (Codec.readTagged ⟨shapes, true⟩ reg bs) := by
      refine MadeStrict.mapError (fun _ => rfl) ?_
      refine MadeStrict.comparison.ofExcept_bind _ fun v _ => ?_
      exact MadeStrict.comparison.ofExcept_bind _ fun content _ => hvalue .unsignedCorim .binary _
    exact hread.agrees reg (fun _ reg => reg) fun _ _ => rfl

/-- An entity with a field that no entity has is read without it, or refused. -/
example :
    let v : Cbor := .map [(.uint 0, .text "INTEL"), (.nint 98, .bool true)]
    let read : Bool → Decoding Entity := fun strict =>
      Record.decode .binary (Codec.scope ⟨.empty, strict⟩ .withBuiltins) v
    read false = ⟨1, .ok { name := some (.text "INTEL") }⟩ ∧
      read true = ⟨0, .error (.unknownField "entity" "-99")⟩ := ⟨rfl, rfl⟩

end Rim
