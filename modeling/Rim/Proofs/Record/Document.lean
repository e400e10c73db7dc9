import Rim.Codec
import Rim.Proofs.Record.Graph

/-!
# What a document says of its records

* `UnsignedCorim.profileMember?`: what the profile member of a manifest says. It is the first entry
  under the key of the profile.
* `RecordKind.namedProfile?`: the profile that a document names for itself.
* `RecordKind.codecFor`: the codec of that profile if it is registered, and the given one otherwise.
  Its shapes are those in force in the document.
* `RecordKind.scopedTo_profileHint`: the fields of a document are read by that codec.
* `Comid.unwrap`: the value of a tag inside the octets or the envelope in which a manifest holds it.
* `ValueTriple.decode_of_partsOfJson`: a text triple is read as one without any other members.
-/

namespace Rim

/-- The profile member of a manifest, wherever it stands: what it is read as, if there is one. Of
several the first counts. -/
def UnsignedCorim.profileMember? (f : Form) (v : f.Value) : Option (Except DecodeError ProfileId) :=
  match f.members v with
  | .ok entries =>
    (entries.find? fun (raw, _) => match f.readKey raw with
      | .ok key => key = f.keyOf profileKey
      | .error _ => false).map fun (_, w) => ProfileId.coding.decode f w
  | .error _ => none

namespace UnsignedCorim

variable {f : Form} {entries : List (f.RawKey × f.Value)} {w : f.Value}

/-- The hint is what the profile member is read as. -/
theorem profileHint_eq (h : f.FirstUnder profileKey entries w) :
    Record.profileHint UnsignedCorim f entries = (ProfileId.coding.decode f w).toOption := by
  obtain ⟨raw, hfind⟩ := h.find?_eq
  exact congrArg (Option.bind · fun e => (ProfileId.coding.decode f e.2).toOption) hfind

/-- Without a profile member there is no hint. -/
theorem profileHint_eq_none (h : ∀ e ∈ entries, f.readKey e.1 ≠ .ok (f.keyOf profileKey)) :
    Record.profileHint UnsignedCorim f entries = none := by
  refine Option.bind_eq_none_iff.2 fun e he => absurd (List.find?_some he) ?_
  have hother := h e (List.mem_of_find?_eq_some he)
  cases hread : f.readKey e.1 with
  | error _ => simp [hread]
  | ok key =>
    have hne : key ≠ f.keyOf profileKey := fun heq => hother (by rw [hread, heq])
    simpa [hread] using hne

theorem profileMember?_eq {v : f.Value} (hentries : f.members v = .ok entries)
    (h : f.FirstUnder profileKey entries w) :
    profileMember? f v = some (ProfileId.coding.decode f w) := by
  obtain ⟨raw, hfind⟩ := h.find?_eq
  unfold profileMember?
  rw [hentries]
  exact congrArg (Option.map fun e => ProfileId.coding.decode f e.2) hfind

end UnsignedCorim

/-- The codec with the shapes of a profile, if there is one. -/
def Codec.withProfile? (c : Codec) : Option Profile → Codec
  | some p => c.withProfile p
  | none => c

theorem Codec.scopedTo_eq (c : Codec) (reg : Registry) (id : Option ProfileId) :
    (c.scope reg).scopedTo id = (c.withProfile? (id.bind reg.profile?)).scope reg := by
  have hprofiles : id.bind (c.scope reg).profiles = (id.bind reg.profile?).map (·.shapes) := by
    cases id <;> rfl
  unfold Scope.scopedTo
  rw [hprofiles]
  cases id.bind reg.profile? <;> rfl

namespace RecordKind

/-- The profile that a document names for itself and all it holds. Manifests alone can do so. -/
def namedProfile? : (k : RecordKind) → (f : Form) → f.Value → Option ProfileId
  | .unsignedCorim, f, v => (UnsignedCorim.profileMember? f v).bind (·.toOption)
  | _, _, _ => none

/-- The codec that reads a document: that of the registered profile that the document names, or the
given one. -/
def codecFor (k : RecordKind) (c : Codec) (reg : Registry) (f : Form) (v : f.Value) : Codec :=
  c.withProfile? ((k.namedProfile? f v).bind reg.profile?)

@[simp] theorem strict_codecFor (k : RecordKind) (c : Codec) (reg : Registry) (f : Form)
    (v : f.Value) : (k.codecFor c reg f v).strict = c.strict := by
  unfold codecFor
  cases (k.namedProfile? f v).bind reg.profile? <;> rfl

/-- The hint that the decoder looks for is the profile that the document names. -/
theorem profileHint_eq (k : RecordKind) {f : Form} {v : f.Value}
    {entries : List (f.RawKey × f.Value)} (h : f.members v = .ok entries) :
    Record.profileHint k.Carrier f entries = k.namedProfile? f v := by
  cases k with
  | unsignedCorim =>
    simp only [namedProfile?, UnsignedCorim.profileMember?, h, Option.map_eq_bind,
      Option.bind_assoc]
    rfl
  | _ => rfl

/-- The entries of a document are read by the codec of its profile. -/
theorem scopedTo_profileHint (k : RecordKind) (c : Codec) (reg : Registry) {f : Form} {v : f.Value}
    {entries : List (f.RawKey × f.Value)} (h : f.members v = .ok entries) :
    (c.scope reg).scopedTo (Record.profileHint k.Carrier f entries) =
      (k.codecFor c reg f v).scope reg := by
  rw [k.profileHint_eq h, Codec.scopedTo_eq]
  rfl

end RecordKind

/-! ## Tags inside manifests -/

namespace Comid

/-- The value of a tag inside a manifest. -/
def unwrap : (f : Form) → f.Value → Except DecodeError f.Value
  | .binary, v => do
    let content ← Cbor.expectTag TagNumber.comid v
    let octets ← Cbor.expectBytes content
    Cbor.parse octets
  | .text, v => do
    let e ← Json.Envelope.ofJson v
    if e.typeTag = "comid" then return e.value
    else throw (.invalidValue s!"unsupported tag type {Text.quote e.typeTag}")

/-- A tag inside a manifest is read from the value inside its octets or its envelope. -/
theorem decode_embedded {f : Form} {sc : Scope} (v : f.Value) :
    embedded.decode f sc v = Decoding.ofExcept (unwrap f v) >>= Record.decode f sc := by
  cases f with
  | binary =>
    unfold unwrap
    rw [Decoding.ofExcept_bind, bind_assoc]
    refine congrArg (_ >>= ·) (funext fun content => ?_)
    rw [Decoding.ofExcept_bind, bind_assoc]
  | text =>
    unfold unwrap
    rw [Decoding.ofExcept_bind, bind_assoc]
    refine congrArg (_ >>= ·) (funext fun e => ?_)
    by_cases htag : e.typeTag = "comid"
    · simp only [htag, if_true]
      exact (Decoding.ofExcept_ok_bind _ _).symm
    · simp only [htag, if_false]
      rfl

end Comid

/-! ## Triples -/

namespace ValueTriple

/-- A triple that has been read has two parts that have been read. -/
theorem decodeParts_cases {f : Form} {sc : Scope} {e ms : f.Value} {n : Nat} {t : ValueTriple}
    (h : decodeParts f sc e ms = ⟨n, .ok t⟩) :
    ∃ m k environment measurements,
      (Record.wire Environment).decode f sc e = ⟨m, .ok environment⟩ ∧
      (Wire.list (Record.wire Measurement)).decode f sc ms = ⟨k, .ok measurements⟩ ∧
      t = ⟨environment, measurements⟩ := by
  obtain ⟨m, _, environment, he, hrest, -⟩ := Decoding.bind_eq_ok_iff.1 h
  obtain ⟨k, _, measurements, hms, ht, -⟩ := Decoding.bind_eq_ok_iff.1 hrest
  obtain ⟨-, rfl⟩ := Decoding.pure_eq_ok_iff.1 ht
  exact ⟨m, k, environment, measurements, Decoding.mapError_eq_ok_iff.1 he,
    Decoding.mapError_eq_ok_iff.1 hms, rfl⟩

/-- The parts of a text triple are two of its members. -/
theorem mem_of_partsOfJson {v e ms : Json} (h : partsOfJson v = .ok (e, ms)) :
    ∃ members, v = .object members ∧ ("environment", e) ∈ members ∧
      ("measurements", ms) ∈ members := by
  obtain ⟨members, hmembers, hparts⟩ := Except.bind_eq_ok_iff.1 h
  refine ⟨members, Json.eq_of_expectObject hmembers, ?_⟩
  split at hparts
  · cases hparts
  next e' others henvironment =>
    split at hparts
    · cases hparts
    next ms' rest hmeasurements =>
      obtain ⟨rfl, rfl⟩ := Prod.mk.inj (Except.ok.inj hparts)
      obtain ⟨he, hothers⟩ := Json.Members.mem_of_remove? henvironment
      exact ⟨he, hothers (Json.Members.mem_of_remove? hmeasurements).1⟩

/-- A text triple is read as one without any other members. -/
theorem decode_of_partsOfJson {v e ms : Json} (h : partsOfJson v = .ok (e, ms)) (sc : Scope) :
    wire.decode .text sc v =
      wire.decode .text sc (.object [("environment", e), ("measurements", ms)]) := by
  show Decoding.ofExcept (partsOfJson v) >>= _ = Decoding.ofExcept (partsOfJson _) >>= _
  rw [h]
  rfl

end ValueTriple

end Rim
