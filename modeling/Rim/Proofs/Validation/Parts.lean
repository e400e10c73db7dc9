import Rim.Proofs.Outcome
import Rim.Proofs.Record.Graph

/-!
# Valid records have valid parts

* `Validation.list_eq_ok_iff` and its siblings: when a check of children passes.
* `Part.Valid`: a part passes its own check. Profile identifiers have none.
* `RecordKind.valid_parts`: in a record that passes its check every part does, however deep it lies.
-/

namespace Rim

/-! ## Checks that pass -/

namespace Validation

theorem bind_eq_ok_iff {check : Validation} {next : Unit → Validation} :
    (check >>= next) = .ok () ↔ check = .ok () ∧ next () = .ok () := by
  cases check <;> simp [bind, Except.bind]

theorem inside_eq_ok_iff {step : PathSegment} {check : Validation} :
    inside step check = .ok () ↔ check = .ok () :=
  Except.mapError_eq_ok_iff

theorem field_eq_ok_iff {name : String} {check : Validation} :
    field name check = .ok () ↔ check = .ok () :=
  inside_eq_ok_iff

/-- A list passes exactly when each of its elements does. -/
theorem list_eq_ok_iff {α : Type} {name : String} {check : α → Validation} {xs : List α} :
    list name check xs = .ok () ↔ ∀ x ∈ xs, check x = .ok () := by
  have hfrom : ∀ i, listFrom name check i xs = .ok () ↔ ∀ x ∈ xs, check x = .ok () := by
    induction xs with
    | nil => simp [listFrom]
    | cons x rest ih =>
      intro i
      rw [listFrom, bind_eq_ok_iff, inside_eq_ok_iff, ih, List.forall_mem_cons]
  exact hfrom 0

theorem optional_eq_ok_iff {α : Type} {name : String} {check : α → Validation} {x : Option α} :
    optional name check x = .ok () ↔ ∀ a, x = some a → check a = .ok () := by
  cases x <;> simp [optional, field_eq_ok_iff]

theorem mandatory_eq_ok_iff {α : Type} {name : String} {check : α → Validation} {x : Option α} :
    mandatory name check x = .ok () ↔ ∃ a, x = some a ∧ check a = .ok () := by
  cases x <;> simp [mandatory, field_eq_ok_iff]

end Validation

/-! ## Parts -/

/-- A part passes its own check. -/
def Part.Valid : Part → Prop
  | .choice _ value => value.validate = .ok ()
  | .extensions _ set => set.validate = .ok ()
  | .time t => t.validate = .ok ()
  | .profile _ => True

theorem TagIdentity.valid_parts {t : TagIdentity} (h : t.validate = .ok ()) :
    ∀ p ∈ Graph.parts t, p.Valid := by
  obtain ⟨value, hvalue, hvalid⟩ := Validation.mandatory_eq_ok_iff.1 h
  rw [forall_parts, hvalue]
  rintro _ ⟨⟩
  exact hvalid

theorem Entity.valid_parts {e : Entity} (h : e.validate = .ok ()) :
    ∀ p ∈ Graph.parts e, p.Valid := by
  unfold validate at h
  rw [forall_parts]
  split at h
  · cases h
  next name hname =>
    simp only [Validation.bind_eq_ok_iff, Validation.field_eq_ok_iff] at h
    obtain ⟨-, hvalid, -, -, hextensions⟩ := h
    rw [hname]
    refine ⟨?_, hextensions⟩
    rintro _ ⟨⟩
    exact hvalid

theorem Class.valid_parts {c : Class} (h : c.validate = .ok ()) :
    ∀ p ∈ Graph.parts c, p.Valid := by
  simp only [validate, Validation.bind_eq_ok_iff, Validation.optional_eq_ok_iff] at h
  rw [forall_parts]
  exact ⟨h.2.1, h.2.2.2.2⟩

theorem Environment.valid_parts {e : Environment} (h : e.validate = .ok ()) :
    ∀ p ∈ Graph.parts e, p.Valid := by
  obtain ⟨c, hc, hvalid⟩ := Validation.mandatory_eq_ok_iff.1 h
  rw [forall_parts, hc]
  rintro _ ⟨⟩
  exact Class.valid_parts hvalid

theorem Mval.valid_parts {m : Mval} (h : m.validate = .ok ()) : ∀ p ∈ Graph.parts m, p.Valid := by
  simp only [validate, Validation.bind_eq_ok_iff] at h
  rw [forall_parts]
  exact h.2.2.2.2.2

theorem Measurement.valid_parts {m : Measurement} (h : m.validate = .ok ()) :
    ∀ p ∈ Graph.parts m, p.Valid := by
  obtain ⟨v, hv, hvalid⟩ := Validation.mandatory_eq_ok_iff.1 h
  rw [forall_parts, hv]
  rintro _ ⟨⟩
  exact Mval.valid_parts hvalid

theorem ValueTriple.valid_parts {t : ValueTriple} (h : t.validate = .ok ()) :
    ∀ p ∈ Graph.parts t, p.Valid := by
  simp only [validate, Validation.bind_eq_ok_iff, Validation.field_eq_ok_iff,
    Validation.list_eq_ok_iff] at h
  rw [forall_parts]
  exact ⟨Environment.valid_parts h.2.1, fun m hm => Measurement.valid_parts (h.2.2 m hm)⟩

theorem Triples.valid_parts {t : Triples} (h : t.validate = .ok ()) :
    ∀ p ∈ Graph.parts t, p.Valid := by
  simp only [validate, Validation.bind_eq_ok_iff, Validation.list_eq_ok_iff] at h
  rw [forall_parts]
  exact ⟨fun v hv => ValueTriple.valid_parts (h.2.1 v hv),
    fun v hv => ValueTriple.valid_parts (h.2.2.1 v hv), h.2.2.2⟩

theorem Comid.valid_parts {c : Comid} (h : c.validate = .ok ()) :
    ∀ p ∈ Graph.parts c, p.Valid := by
  unfold validate at h
  rw [forall_parts]
  split at h
  · cases h
  next identity hidentity =>
    simp only [Validation.bind_eq_ok_iff, Validation.field_eq_ok_iff,
      Validation.list_eq_ok_iff] at h
    obtain ⟨-, -, hid, hentities, htriples, hextensions⟩ := h
    refine ⟨?_, fun e he => Entity.valid_parts (hentities e he), Triples.valid_parts htriples,
      hextensions⟩
    rw [hidentity]
    rintro _ ⟨⟩
    exact TagIdentity.valid_parts hid

theorem Validity.valid_parts {w : Validity} (h : w.validate = .ok ()) :
    ∀ p ∈ Graph.parts w, p.Valid := by
  unfold validate at h
  rw [forall_parts]
  split at h
  · cases h
  next notAfter hafter =>
    obtain ⟨hend, h⟩ := Validation.bind_eq_ok_iff.1 h
    refine ⟨fun t ht => ?_, fun t ht => ?_⟩
    · rw [ht] at h
      exact Validation.field_eq_ok_iff.1 (Validation.bind_eq_ok_iff.1 h).1
    · obtain rfl : notAfter = t := Option.some.inj (hafter.symm.trans ht)
      exact Validation.field_eq_ok_iff.1 hend

theorem UnsignedCorim.valid_parts {m : UnsignedCorim} (h : m.validate = .ok ()) :
    ∀ p ∈ Graph.parts m, p.Valid := by
  unfold validate at h
  rw [forall_parts]
  split at h
  · cases h
  next id hid =>
    simp only [Validation.bind_eq_ok_iff, Validation.field_eq_ok_iff, Validation.list_eq_ok_iff,
      Validation.optional_eq_ok_iff] at h
    obtain ⟨-, hvalid, htags, hwindow, hentities, hextensions⟩ := h
    refine ⟨?_, fun c hc => Comid.valid_parts (htags c hc), fun _ _ => trivial,
      fun w hw => Validity.valid_parts (hwindow w hw),
      fun e he => Entity.valid_parts (hentities e he), hextensions⟩
    rw [hid]
    rintro _ ⟨⟩
    exact hvalid

theorem Meta.valid_parts {m : Meta} (h : m.validate = .ok ()) : ∀ p ∈ Graph.parts m, p.Valid := by
  simp only [validate, Validation.bind_eq_ok_iff, Validation.optional_eq_ok_iff] at h
  rw [forall_parts]
  exact fun w hw => Validity.valid_parts (h.2 w hw)

/-- In a record that passes its check every part does. -/
theorem RecordKind.valid_parts (k : RecordKind) {r : k.Carrier} (h : Record.validate r = .ok ()) :
    ∀ p ∈ Graph.parts r, p.Valid := by
  cases k with
  | comid => exact Comid.valid_parts h
  | tagIdentity => exact TagIdentity.valid_parts h
  | entity => exact Entity.valid_parts h
  | triples => exact Triples.valid_parts h
  | environment => exact Environment.valid_parts h
  | class_ => exact Class.valid_parts h
  | measurement => exact Measurement.valid_parts h
  | mval => exact Mval.valid_parts h
  | unsignedCorim => exact UnsignedCorim.valid_parts h
  | meta_ => exact Meta.valid_parts h
  | validity => exact Validity.valid_parts h
  | version | signer => exact nofun

end Rim
