import Rim.Proofs.Record.Graph
import Rim.Proofs.Schema.Shed

/-!
# Records without their extensions

* `Graph.entryCount`, `Graph.strip`: the extension entries of a record graph, and the graph without
  them.
* `Comid.sheds` and its siblings: every kind of record is read without shapes as the record without
  its extensions.
-/

namespace Rim

/-! ## Counting -/

/-- The extension entries of a part. -/
def Part.entryCount : Part → Nat
  | .extensions _ set => set.entries.length
  | _ => 0

namespace Graph

/-- The extension entries of some parts. -/
def entries (parts : List Part) : Nat := (parts.map Part.entryCount).sum

variable {R : Type} [Graph R]

/-- The extension entries of a record and of all the records in it. -/
def entryCount (r : R) : Nat := entries (parts r)

/-- The record without extensions and without shapes, throughout. -/
def strip (r : R) : R := mapSets (fun _ => .empty) r

@[simp] theorem entries_nil : entries [] = 0 := rfl

@[simp] theorem entries_append (ps qs : List Part) :
    entries (ps ++ qs) = entries ps + entries qs := by
  simp [entries]

@[simp] theorem entries_extensions (point : ExtensionPoint) (set : ExtensionSet) :
    entries [.extensions point set] = set.entries.length := by
  simp [entries, Part.entryCount]

@[simp] theorem entries_choices (family : Family) (values : List ChoiceValue) :
    entries (values.map (.choice family)) = 0 := by
  simp [entries, Part.entryCount, Function.comp_def]

@[simp] theorem entries_times (times : List Instant) : entries (times.map .time) = 0 := by
  simp [entries, Part.entryCount, Function.comp_def]

@[simp] theorem entries_profiles (ids : List ProfileId) : entries (ids.map .profile) = 0 := by
  simp [entries, Part.entryCount, Function.comp_def]

@[simp] theorem entries_flatMap (rs : List R) :
    entries (rs.flatMap parts) = (rs.map entryCount).sum := by
  induction rs with
  | nil => rfl
  | cons r rest ih => simp [entryCount, ih]

end Graph

/-! ## Wires and fields -/

variable {f : Form} {sc : Scope}

section

variable {R α : Type} {slot : Int64} {name : String} {wire : Wire α} {get : R → Option α}
  {set : α → R → R} {count : R → Nat} {strip : R → R}

theorem Field.sheds_of {contents : α → Nat} {stripped : α → α}
    (hwire : wire.Sheds f sc contents stripped)
    (hstrip : ∀ a r, strip (set a r) = set (stripped a) (strip r))
    (hcount : ∀ a r, get r = none → count (set a r) = count r + contents a) :
    (Field.of slot name wire get set).Sheds f sc count strip :=
  ⟨contents, stripped, hwire, hstrip, hcount⟩

/-- A field whose wire does not look at the shapes. -/
theorem Field.sheds_plain (hwire : wire.decode f sc.bare = wire.decode f sc)
    (hstrip : ∀ a r, strip (set a r) = set a (strip r))
    (hcount : ∀ a r, count (set a r) = count r) :
    (Field.of slot name wire get set).Sheds f sc count strip :=
  sheds_of (Wire.sheds_of_eq hwire) hstrip fun a r _ => hcount a r

end

section

variable {R : Type} [Record R] {count : R → Nat} {strip : R → R}

theorem Record.strips_of_host_eq_none (hhost : host (R := R) = none) (hcount : count empty = 0)
    (hstrip : strip empty = empty)
    (hfields : (fields (R := R)).Forall fun x => x.Sheds f sc count strip) :
    Strips R f sc count strip := by
  refine ⟨hcount, hstrip, fun h hh => ?_, fun h hh => ?_, List.forall_iff_forall_mem.1 hfields⟩
  · rw [hhost] at hh
    cases hh
  · rw [hhost] at hh
    cases hh

theorem Record.strips_of_host {h : ExtensionHost R} (hhost : host (R := R) = some h)
    (hcount : count empty = 0) (hstrip : strip empty = empty)
    (hadd : ∀ s r, count (h.set s r) + (h.get r).entries.length = count r + s.entries.length)
    (hset : ∀ s r, strip (h.set s r) = strip r)
    (hfields : (fields (R := R)).Forall fun x => x.Sheds f sc count strip) :
    Strips R f sc count strip := by
  refine ⟨hcount, hstrip, fun h' hh => ?_, fun h' hh => ?_, List.forall_iff_forall_mem.1 hfields⟩
  · obtain rfl : h = h' := Option.some.inj (hhost.symm.trans hh)
    exact hadd
  · obtain rfl : h = h' := Option.some.inj (hhost.symm.trans hh)
    exact hset

end

/-- Records inside other records are read without shapes as the records without their extensions. -/
theorem Record.wire_sheds {R : Type} [Record R] [LawfulRecord R] {count : R → Nat} {strip : R → R}
    (hprofile : profileField (R := R) = none) (hlaws : Strips R f sc count strip)
    (hsound : sc.bindings.Sound) : (wire R).Sheds f sc count strip := by
  intro v n r h
  refine decode_sheds hlaws (fun shape hshape => ?_) (fun entries _ => ?_) h
  · obtain ⟨point, -, hfind⟩ := Option.bind_eq_some_iff.1 hshape
    exact hsound.distinct_of_find? hfind
  · simp [profileHint, hprofile]

/-! ## The kinds of records -/

theorem TagIdentity.entryCount_eq (t : TagIdentity) : Graph.entryCount t = 0 :=
  Graph.entries_choices .tagId _

theorem TagIdentity.sheds (hsound : sc.bindings.Sound) :
    (Record.wire TagIdentity).Sheds f sc Graph.entryCount Graph.strip := by
  refine Record.wire_sheds rfl (Record.strips_of_host_eq_none rfl rfl rfl ?_) hsound
  refine ⟨?_, ?_⟩
  · exact Field.sheds_plain rfl (fun _ _ => rfl) fun _ _ => by simp only [entryCount_eq]
  · exact Field.sheds_plain rfl (fun _ _ => rfl) fun _ _ => by simp only [entryCount_eq]

theorem Entity.entryCount_eq (e : Entity) :
    Graph.entryCount e = e.extensions.entries.length := by
  simp [Graph.entryCount, Graph.parts]

theorem Entity.sheds (hsound : sc.bindings.Sound) :
    (Record.wire Entity).Sheds f sc Graph.entryCount Graph.strip := by
  refine Record.wire_sheds rfl
    (Record.strips_of_host rfl rfl rfl ?_ (fun _ _ => rfl) ⟨?_, ?_, ?_⟩) hsound
  · intro s e
    simp only [entryCount_eq]
    omega
  all_goals exact Field.sheds_plain rfl (fun _ _ => rfl) fun _ _ => by simp only [entryCount_eq]

theorem Class.entryCount_eq (c : Class) : Graph.entryCount c = c.extensions.entries.length := by
  simp [Graph.entryCount, Graph.parts]

theorem Class.sheds (hsound : sc.bindings.Sound) :
    (Record.wire Class).Sheds f sc Graph.entryCount Graph.strip := by
  refine Record.wire_sheds rfl
    (Record.strips_of_host rfl rfl rfl ?_ (fun _ _ => rfl) ⟨?_, ?_, ?_, ?_, ?_⟩) hsound
  · intro s c
    simp only [entryCount_eq]
    omega
  all_goals exact Field.sheds_plain rfl (fun _ _ => rfl) fun _ _ => by simp only [entryCount_eq]

theorem Environment.entryCount_eq (e : Environment) :
    Graph.entryCount e = (e.class_.toList.map Graph.entryCount).sum :=
  Graph.entries_flatMap _

theorem Environment.sheds (hsound : sc.bindings.Sound) :
    (Record.wire Environment).Sheds f sc Graph.entryCount Graph.strip := by
  refine Record.wire_sheds rfl (Record.strips_of_host_eq_none rfl rfl rfl ?_) hsound
  refine Field.sheds_of (Class.sheds hsound) (fun _ _ => rfl) ?_
  intro c e hnone
  simp [entryCount_eq, show e.class_ = none from hnone]

theorem Version.sheds (hsound : sc.bindings.Sound) :
    (Record.wire Version).Sheds f sc Graph.entryCount Graph.strip := by
  refine Record.wire_sheds rfl (Record.strips_of_host_eq_none rfl rfl rfl ?_) hsound
  refine ⟨?_, ?_⟩
  all_goals exact Field.sheds_plain rfl (fun _ _ => rfl) fun _ _ => rfl

theorem Mval.entryCount_eq (m : Mval) : Graph.entryCount m = m.extensions.entries.length := by
  simp [Graph.entryCount, Graph.parts]

theorem Mval.sheds (hsound : sc.bindings.Sound) :
    (Record.wire Mval).Sheds f sc Graph.entryCount Graph.strip := by
  refine Record.wire_sheds rfl
    (Record.strips_of_host rfl rfl rfl ?_ (fun _ _ => rfl) ⟨?_, ?_, ?_, ?_, ?_⟩) hsound
  · intro s m
    simp only [entryCount_eq]
    omega
  · refine Field.sheds_of (Version.sheds hsound) (fun _ _ => rfl) fun v m _ => ?_
    simp only [entryCount_eq]
    rfl
  all_goals exact Field.sheds_plain rfl (fun _ _ => rfl) fun _ _ => by simp only [entryCount_eq]

theorem Measurement.entryCount_eq (m : Measurement) :
    Graph.entryCount m = (m.value.toList.map Graph.entryCount).sum :=
  Graph.entries_flatMap _

theorem Measurement.sheds (hsound : sc.bindings.Sound) :
    (Record.wire Measurement).Sheds f sc Graph.entryCount Graph.strip := by
  refine Record.wire_sheds rfl (Record.strips_of_host_eq_none rfl rfl rfl ?_) hsound
  refine Field.sheds_of (Mval.sheds hsound) (fun _ _ => rfl) ?_
  intro v m hnone
  simp [entryCount_eq, show m.value = none from hnone]

namespace ValueTriple

theorem entryCount_eq (t : ValueTriple) :
    Graph.entryCount t =
      Graph.entryCount t.environment + (t.measurements.map Graph.entryCount).sum := by
  show Graph.entries (Graph.parts t.environment ++ t.measurements.flatMap Graph.parts) = _
  simp only [Graph.entries_append, Graph.entries_flatMap, Graph.entryCount]

theorem sheds_decodeParts (hsound : sc.bindings.Sound) {e ms : f.Value} {n : Nat} {t : ValueTriple}
    (h : decodeParts f sc e ms = ⟨n, .ok t⟩) :
    (decodeParts f sc.bare e ms).Sheds sc.strict n (Graph.entryCount t) (Graph.strip t) := by
  obtain ⟨n₁, n₂, environment, hfirst, hnext, rfl⟩ := Decoding.bind_eq_ok_iff.1 h
  obtain ⟨n₂, n₃, measurements, hsecond, hlast, rfl⟩ := Decoding.bind_eq_ok_iff.1 hnext
  obtain ⟨rfl, rfl⟩ := Decoding.pure_eq_ok_iff.1 hlast
  have henvironment : Decoding.Sheds sc.strict n₁ (Graph.entryCount environment)
      (Graph.strip environment) ((Record.decode f sc.bare e).mapError (.field "environment")) :=
    (Environment.sheds hsound (Decoding.mapError_eq_ok_iff.1 hfirst)).mapError fun _ => rfl
  have hmeasurements : Decoding.Sheds sc.strict n₂ (measurements.map Graph.entryCount).sum
      (measurements.map Graph.strip) (((Wire.list (Record.wire Measurement)).decode f sc.bare
        ms).mapError (.field "measurements")) :=
    (Wire.sheds_list (Measurement.sheds hsound)
      (Decoding.mapError_eq_ok_iff.1 hsecond)).mapError fun _ => rfl
  rw [entryCount_eq]
  exact henvironment.bind _
    (hmeasurements.map fun ms => (⟨Graph.strip environment, ms⟩ : ValueTriple))

theorem sheds (hsound : sc.bindings.Sound) : wire.Sheds f sc Graph.entryCount Graph.strip := by
  intro v n t h
  cases f with
  | binary =>
    obtain ⟨⟨e, ms⟩, hparts, hread⟩ := Decoding.ofExcept_bind_eq_ok_iff.1 h
    have hread : decodeParts .binary sc e ms = ⟨n, .ok t⟩ := hread
    exact .ofExcept_bind hparts (sheds_decodeParts hsound hread)
  | text =>
    obtain ⟨⟨e, ms⟩, hparts, hread⟩ := Decoding.ofExcept_bind_eq_ok_iff.1 h
    have hread : decodeParts .text sc e ms = ⟨n, .ok t⟩ := hread
    exact .ofExcept_bind hparts (sheds_decodeParts hsound hread)

end ValueTriple

theorem Triples.entryCount_eq (t : Triples) :
    Graph.entryCount t = (t.referenceValues.map Graph.entryCount).sum +
      (t.endorsedValues.map Graph.entryCount).sum + t.extensions.entries.length := by
  show Graph.entries (t.referenceValues.flatMap Graph.parts ++
    t.endorsedValues.flatMap Graph.parts ++ [.extensions .triples t.extensions]) = _
  simp only [Graph.entries_append, Graph.entries_flatMap, Graph.entries_extensions]

theorem Triples.sheds (hsound : sc.bindings.Sound) :
    (Record.wire Triples).Sheds f sc Graph.entryCount Graph.strip := by
  have hlist : listWire.Sheds f sc (fun vs => (vs.map Graph.entryCount).sum)
    (List.map Graph.strip) := Wire.sheds_list (ValueTriple.sheds hsound)
  refine Record.wire_sheds rfl
    (Record.strips_of_host rfl rfl rfl ?_ (fun _ _ => rfl) ⟨?_, ?_⟩) hsound
  · intro s t
    simp only [entryCount_eq]
    omega
  all_goals
    refine Field.sheds_of hlist (fun _ _ => rfl) fun vs t hnone => ?_
    simp only [entryCount_eq, Field.eq_nil_of_present? hnone, List.map_nil, List.sum_nil]
    omega

/-- Triples that hold nothing hold no extension. -/
theorem Triples.entryCount_of_isEmpty {t : Triples} (h : t.isEmpty = true) :
    Graph.entryCount t = 0 := by
  simp only [isEmpty, ExtensionSet.isEmpty, Bool.and_eq_true, List.isEmpty_iff] at h
  obtain ⟨⟨hreference, hendorsed⟩, hset⟩ := h
  simp [entryCount_eq, hreference, hendorsed, hset]

theorem Comid.entryCount_eq (c : Comid) :
    Graph.entryCount c = (c.entities.map Graph.entryCount).sum + Graph.entryCount c.triples +
      c.extensions.entries.length := by
  show Graph.entries (c.tagIdentity.toList.flatMap Graph.parts ++
    c.entities.flatMap Graph.parts ++ Graph.parts c.triples ++
    [.extensions .comids c.extensions]) = _
  simp only [Graph.entries_append, Graph.entries_flatMap, Graph.entries_extensions]
  cases c.tagIdentity with
  | none => simp [Graph.entryCount]
  | some t => simp [Graph.entryCount, ← TagIdentity.entryCount_eq t]

theorem Comid.sheds (hsound : sc.bindings.Sound) :
    (Record.wire Comid).Sheds f sc Graph.entryCount Graph.strip := by
  refine Record.wire_sheds rfl
    (Record.strips_of_host rfl rfl rfl ?_ (fun _ _ => rfl) ⟨?_, ?_, ?_, ?_⟩) hsound
  · intro s c
    simp only [entryCount_eq]
    omega
  · exact Field.sheds_plain rfl (fun _ _ => rfl) fun _ _ => by simp only [entryCount_eq]
  · refine Field.sheds_of (TagIdentity.sheds hsound) (fun _ _ => rfl) fun t c _ => ?_
    simp only [entryCount_eq, TagIdentity.entryCount_eq, Nat.add_zero]
  · refine Field.sheds_of (Wire.sheds_list (Entity.sheds hsound)) (fun _ _ => rfl)
      fun es c hnone => ?_
    simp only [entryCount_eq, Field.eq_nil_of_present? hnone, List.map_nil, List.sum_nil]
    omega
  · refine Field.sheds_of (Triples.sheds hsound) (fun _ _ => rfl) fun t c hnone => ?_
    have hempty : c.triples.isEmpty = true := by
      by_contra hne
      exact absurd hnone (by simp [hne])
    have hcount := Triples.entryCount_of_isEmpty hempty
    simp only [entryCount_eq, hcount]
    omega

/-- Tags inside manifests are read without shapes as the tags without their extensions. -/
theorem Comid.sheds_embedded (hsound : sc.bindings.Sound) :
    embedded.Sheds f sc Graph.entryCount Graph.strip := by
  intro v n c h
  cases f with
  | binary =>
    obtain ⟨content, hcontent, h⟩ := Decoding.ofExcept_bind_eq_ok_iff.1 h
    obtain ⟨octets, hoctets, h⟩ := Decoding.ofExcept_bind_eq_ok_iff.1 h
    obtain ⟨inner, hinner, h⟩ := Decoding.ofExcept_bind_eq_ok_iff.1 h
    refine .ofExcept_bind hcontent (.ofExcept_bind hoctets (.ofExcept_bind hinner ?_))
    exact Comid.sheds hsound h
  | text =>
    obtain ⟨e, he, h⟩ := Decoding.ofExcept_bind_eq_ok_iff.1 h
    refine .ofExcept_bind he ?_
    split at h
    next htag =>
      rw [if_pos htag]
      exact Comid.sheds hsound h
    next => cases h

theorem Validity.entryCount_eq (w : Validity) : Graph.entryCount w = 0 := by
  show Graph.entries (w.notBefore.toList.map .time ++ w.notAfter.toList.map .time) = 0
  simp only [Graph.entries_append, Graph.entries_times]

theorem Validity.sheds (hsound : sc.bindings.Sound) :
    (Record.wire Validity).Sheds f sc Graph.entryCount Graph.strip := by
  refine Record.wire_sheds rfl (Record.strips_of_host_eq_none rfl rfl rfl ?_) hsound
  refine ⟨?_, ?_⟩
  all_goals exact Field.sheds_plain rfl (fun _ _ => rfl) fun _ _ => by simp only [entryCount_eq]

theorem UnsignedCorim.entryCount_eq (m : UnsignedCorim) :
    Graph.entryCount m = (m.tags.map Graph.entryCount).sum +
      (m.entities.map Graph.entryCount).sum + m.extensions.entries.length := by
  show Graph.entries (m.id.toList.map (.choice .corimId) ++ m.tags.flatMap Graph.parts ++
    m.profile.toList.map .profile ++ m.rimValidity.toList.flatMap Graph.parts ++
    m.entities.flatMap Graph.parts ++ [.extensions .corims m.extensions]) = _
  simp only [Graph.entries_append, Graph.entries_flatMap, Graph.entries_extensions,
    Graph.entries_choices, Graph.entries_profiles]
  cases m.rimValidity with
  | none => simp
  | some w => simp [w.entryCount_eq]

/-- Manifests are read without shapes as the manifests without their extensions, whatever names
their profile. -/
theorem UnsignedCorim.strips (hsound : sc.bindings.Sound) :
    Record.Strips UnsignedCorim f sc Graph.entryCount Graph.strip := by
  refine Record.strips_of_host rfl rfl rfl ?_ (fun _ _ => rfl) ⟨?_, ?_, ?_, ?_, ?_⟩
  · intro s m
    simp only [entryCount_eq]
    omega
  · exact Field.sheds_plain rfl (fun _ _ => rfl) fun _ _ => by simp only [entryCount_eq]
  · refine Field.sheds_of (Wire.sheds_list (Comid.sheds_embedded hsound)) (fun _ _ => rfl)
      fun cs m hnone => ?_
    simp only [entryCount_eq, Field.eq_nil_of_present? hnone, List.map_nil, List.sum_nil]
    omega
  · exact Field.sheds_plain rfl (fun _ _ => rfl) fun _ _ => by simp only [entryCount_eq]
  · refine Field.sheds_of (Validity.sheds hsound) (fun _ _ => rfl) fun w m _ => ?_
    simp only [entryCount_eq, Validity.entryCount_eq, Nat.add_zero]
  · refine Field.sheds_of (Wire.sheds_list (Entity.sheds hsound)) (fun _ _ => rfl)
      fun es m hnone => ?_
    simp only [entryCount_eq, Field.eq_nil_of_present? hnone, List.map_nil, List.sum_nil]
    omega

theorem Signer.sheds (hsound : sc.bindings.Sound) :
    (Record.wire Signer).Sheds f sc Graph.entryCount Graph.strip := by
  refine Record.wire_sheds rfl (Record.strips_of_host_eq_none rfl rfl rfl ?_) hsound
  refine ⟨?_, ?_⟩
  all_goals exact Field.sheds_plain rfl (fun _ _ => rfl) fun _ _ => rfl

theorem Meta.entryCount_eq (m : Meta) : Graph.entryCount m = 0 := by
  show Graph.entries (m.validity.toList.flatMap Graph.parts) = 0
  rw [Graph.entries_flatMap]
  cases m.validity with
  | none => rfl
  | some w => simp [w.entryCount_eq]

theorem Meta.sheds (hsound : sc.bindings.Sound) :
    (Record.wire Meta).Sheds f sc Graph.entryCount Graph.strip := by
  refine Record.wire_sheds rfl (Record.strips_of_host_eq_none rfl rfl rfl ?_) hsound
  refine ⟨?_, ?_⟩
  · refine Field.sheds_of (Signer.sheds hsound) (fun _ _ => rfl) fun s m _ => ?_
    simp only [entryCount_eq]
    rfl
  · refine Field.sheds_of (Validity.sheds hsound) (fun _ _ => rfl) fun w m _ => ?_
    simp only [entryCount_eq, Validity.entryCount_eq]

namespace RecordKind

/-- The value does not name a profile that the scope knows. -/
def NamesNoProfile (k : RecordKind) (f : Form) (sc : Scope) (v : f.Value) : Prop :=
  ∀ entries, f.members v = .ok entries →
    ∀ id, Record.profileHint k.Carrier f entries = some id → sc.profiles id = none

/-- A record of any kind is read without shapes as the record without its extensions. -/
theorem decode_sheds {k : RecordKind} (hsound : sc.bindings.Sound) {v : f.Value}
    (hprofile : k.NamesNoProfile f sc v) {r : k.Carrier} {n : Nat}
    (h : Record.decode f sc v = ⟨n, .ok r⟩) :
    (Record.decode f sc.bare v : Decoding k.Carrier).Sheds sc.strict n (Graph.entryCount r)
      (Graph.strip r) := by
  cases k with
  | comid => exact Comid.sheds hsound h
  | tagIdentity => exact TagIdentity.sheds hsound h
  | entity => exact Entity.sheds hsound h
  | triples => exact Triples.sheds hsound h
  | environment => exact Environment.sheds hsound h
  | class_ => exact Class.sheds hsound h
  | measurement => exact Measurement.sheds hsound h
  | mval => exact Mval.sheds hsound h
  | version => exact Version.sheds hsound h
  | unsignedCorim =>
    refine Record.decode_sheds (UnsignedCorim.strips hsound) (fun shape hshape => ?_)
      (fun entries hentries => ?_) h
    · obtain ⟨point, -, hfind⟩ := Option.bind_eq_some_iff.1 hshape
      exact hsound.distinct_of_find? hfind
    · exact Option.bind_eq_none_iff.2 (hprofile entries hentries)
  | meta_ => exact Meta.sheds hsound h
  | signer => exact Signer.sheds hsound h
  | validity => exact Validity.sheds hsound h

end RecordKind

end Rim
