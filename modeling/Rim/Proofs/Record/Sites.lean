import Rim.Proofs.Record.Document
import Rim.Proofs.Schema.Invariant

/-!
# Where objects stand in a text document

* `Site`: a place at which an object is read: that of a record of some kind, or of a value triple.
* `Site.Inside`, `Site.Within`: what stands in the members of an object, and at any depth.
* `RecordKind.nested_readBy`, `RecordKind.flat_of_not_nested`: the members under which records stand
  are read as such records, and no other member holds any.
* `Site.ReadIn`: the value at a place has been read in a scope.
* `Site.ReadIn.inside`, `Site.ReadIn.within`: so have the values inside it, step by step and at any
  depth. A tag in an envelope is read where it stands.
* `Site.ReadIn.knows`: a strict scope has read none but fixed fields and declared extensions.
-/

namespace Rim

/-! ## Places -/

/-- A place at which an object is read. -/
inductive Site where
  | record (k : RecordKind)
  | triple

/-- What stands under a member of a record, if records do. -/
inductive Nested where
  | one (k : RecordKind)
  | each (k : RecordKind)
  | triples
  /-- Tags in their envelopes. -/
  | tags

/-- The members of a record under which other records stand. -/
def RecordKind.nested : RecordKind → List (String × Nested)
  | comid =>
    [("tag-identity", .one tagIdentity), ("entities", .each entity), ("triples", .one triples)]
  | triples => [("reference-values", .triples), ("endorsed-values", .triples)]
  | environment => [("class", .one class_)]
  | measurement => [("value", .one mval)]
  | mval => [("version", .one version)]
  | unsignedCorim =>
    [("tags", .tags), ("rim-validity", .one validity), ("entities", .each entity)]
  | meta_ => [("signer", .one signer), ("validity", .one validity)]
  | tagIdentity | entity | class_ | version | signer | validity => []

/-- The objects that stand in the content of a member. -/
def Nested.Holds (content : Json) : Nested → Site → Json → Prop
  | .one k, site, v => site = .record k ∧ v = content
  | .each k, site, v => site = .record k ∧ ∃ items, content = .array items ∧ v ∈ items
  | .triples, site, v => site = .triple ∧ ∃ items, content = .array items ∧ v ∈ items
  | .tags, site, v => site = .record .comid ∧
      ∃ items item, content = .array items ∧ item ∈ items ∧ Comid.unwrap .text item = .ok v

namespace Site

/-- What stands in the members of an object: under those of a record, and in the two parts of a
triple. -/
inductive Inside : Site × Json → Site × Json → Prop where
  | member {k : RecordKind} {members : Json.Members} {name : String} {nested : Nested}
      {content : Json} {site : Site} {v : Json} : (name, nested) ∈ k.nested →
      (name, content) ∈ members → nested.Holds content site v →
      Inside (.record k, .object members) (site, v)
  | environment {t environment measurements : Json} :
      ValueTriple.partsOfJson t = .ok (environment, measurements) →
      Inside (.triple, t) (.record .environment, environment)
  | measurement {t environment v : Json} {items : List Json} :
      ValueTriple.partsOfJson t = .ok (environment, .array items) → v ∈ items →
      Inside (.triple, t) (.record .measurement, v)

/-- What stands in an object at any depth, and the object itself. -/
def Within (whole part : Site × Json) : Prop := Relation.ReflTransGen Inside whole part

/-! ## What has been read -/

/-- The value at a place has been read in a scope. -/
def ReadIn (sc : Scope) : Site × Json → Prop
  | (.record k, v) => ∃ members n r, v = .object members ∧
      (Record.decodeEntries .text sc [] members (Record.bindOwn sc.bindings Record.empty) :
        Decoding k.Carrier) = ⟨n, .ok r⟩
  | (.triple, v) => ∃ n t, ValueTriple.wire.decode .text sc v = ⟨n, .ok t⟩

variable {sc : Scope}

theorem readIn_record {k : RecordKind} (hprofile : Record.profileField (R := k.Carrier) = none)
    {v : Json} {n : Nat} {r : k.Carrier} (h : Record.decode .text sc v = ⟨n, .ok r⟩) :
    ReadIn sc (.record k, v) := by
  obtain ⟨members, hmembers, hread⟩ := Record.decode_cases h
  have hhint : Record.profileHint k.Carrier .text members = none := by
    simp [Record.profileHint, hprofile]
  rw [hhint] at hread
  exact ⟨members, n, r, Json.eq_of_expectObject hmembers, hread⟩

/-- The elements of a list that has been read have been read. -/
theorem forall_mem_of_list {α : Type} {w : Wire α} {v : Json} {items : List Json} {n : Nat}
    {as : List α} (h : (Wire.list w).decode .text sc v = ⟨n, .ok as⟩) (hv : v = .array items) :
    ∀ item ∈ items, ∃ m a, w.decode .text sc item = ⟨m, .ok a⟩ := by
  subst hv
  obtain ⟨_, hitems, hlist⟩ := Decoding.ofExcept_bind_eq_ok_iff.1 h
  obtain rfl := Except.ok.inj hitems
  exact forall_mem_left_of_forall₂ ((Decoding.forall₂_of_listFrom hlist).imp
    fun _ a ⟨m, ha⟩ => ⟨m, a, ha⟩)

end Site

/-! ## One step -/

/-- What has been read as the content of a field holds values that have been read. -/
def Nested.ReadBy (nested : Nested) {R : Type} (x : Field R) : Prop :=
  ∀ sc v n b, x.wire.decode .text sc v = ⟨n, .ok b⟩ →
    ∀ site w, nested.Holds v site w → Site.ReadIn sc (site, w)

namespace Nested

variable {R : Type} {x : Field R}

theorem ReadBy.one {k : RecordKind} (hprofile : Record.profileField (R := k.Carrier) = none)
    (hx : ∀ sc v n b, x.wire.decode .text sc v = ⟨n, .ok b⟩ →
      ∃ r, (Record.wire k.Carrier).decode .text sc v = ⟨n, .ok r⟩) : (Nested.one k).ReadBy x := by
  rintro sc v n b hb _ _ ⟨rfl, rfl⟩
  obtain ⟨r, hr⟩ := hx sc _ n b hb
  exact Site.readIn_record hprofile hr

theorem ReadBy.each {k : RecordKind} (hprofile : Record.profileField (R := k.Carrier) = none)
    (hx : ∀ sc v n b, x.wire.decode .text sc v = ⟨n, .ok b⟩ →
      ∃ rs, (Wire.list (Record.wire k.Carrier)).decode .text sc v = ⟨n, .ok rs⟩) :
    (Nested.each k).ReadBy x := by
  rintro sc v n b hb _ w ⟨rfl, items, hv, hw⟩
  obtain ⟨rs, hrs⟩ := hx sc v n b hb
  obtain ⟨m, r, hr⟩ := Site.forall_mem_of_list hrs hv w hw
  exact Site.readIn_record hprofile hr

theorem ReadBy.triples
    (hx : ∀ sc v n b, x.wire.decode .text sc v = ⟨n, .ok b⟩ →
      ∃ ts, Triples.listWire.decode .text sc v = ⟨n, .ok ts⟩) : Nested.triples.ReadBy x := by
  rintro sc v n b hb _ w ⟨rfl, items, hv, hw⟩
  obtain ⟨ts, hts⟩ := hx sc v n b hb
  exact Site.forall_mem_of_list hts hv w hw

theorem ReadBy.tags
    (hx : ∀ sc v n b, x.wire.decode .text sc v = ⟨n, .ok b⟩ →
      ∃ cs, (Wire.list Comid.embedded).decode .text sc v = ⟨n, .ok cs⟩) : Nested.tags.ReadBy x := by
  rintro sc v n b hb _ w ⟨rfl, items, item, hv, hitem, hw⟩
  obtain ⟨cs, hcs⟩ := hx sc v n b hb
  obtain ⟨m, c, hc⟩ := Site.forall_mem_of_list hcs hv item hitem
  rw [Comid.decode_embedded, hw, Decoding.ofExcept_ok_bind] at hc
  exact Site.readIn_record (k := .comid) rfl hc

end Nested

/-- Every member under which records stand is a fixed field that reads them. -/
theorem RecordKind.nested_readBy (k : RecordKind) :
    ∀ e ∈ k.nested, ∃ x, Record.field? k.Carrier .text e.1 = some x ∧ e.2.ReadBy x := by
  refine List.forall_iff_forall_mem.1 ?_
  cases k with
  | comid =>
    exact ⟨⟨_, rfl, .one rfl fun _ _ _ b hb => ⟨b, hb⟩⟩,
      ⟨_, rfl, .each rfl fun _ _ _ b hb => ⟨b, hb⟩⟩,
      ⟨_, rfl, .one rfl fun _ _ _ b hb => ⟨b, hb⟩⟩⟩
  | triples =>
    exact ⟨⟨_, rfl, .triples fun _ _ _ b hb => ⟨b, hb⟩⟩,
      ⟨_, rfl, .triples fun _ _ _ b hb => ⟨b, hb⟩⟩⟩
  | environment => exact ⟨_, rfl, .one rfl fun _ _ _ b hb => ⟨b, hb⟩⟩
  | measurement => exact ⟨_, rfl, .one rfl fun _ _ _ b hb => ⟨b, hb⟩⟩
  | mval => exact ⟨_, rfl, .one rfl fun _ _ _ b hb => ⟨b, hb⟩⟩
  | unsignedCorim =>
    exact ⟨⟨_, rfl, .tags fun _ _ _ b hb => ⟨b, hb⟩⟩,
      ⟨_, rfl, .one rfl fun _ _ _ b hb => ⟨b, hb⟩⟩,
      ⟨_, rfl, .each rfl fun _ _ _ b hb => ⟨b, hb⟩⟩⟩
  | meta_ =>
    exact ⟨⟨_, rfl, .one rfl fun _ _ _ b hb => ⟨b, hb⟩⟩,
      ⟨_, rfl, .one rfl fun _ _ _ b hb => ⟨b, hb⟩⟩⟩
  | _ => trivial

/-- A content that is read alike whatever shapes are in force, strict or not, as it holds no
records. -/
def Wire.Flat {α : Type} (w : Wire α) : Prop :=
  ∀ sc sc' : Scope, sc.types = sc'.types → ∀ v, w.decode .text sc v = w.decode .text sc' v

theorem Wire.flat_coding {α : Type} (c : Coding α) : c.toWire.Flat := fun _ _ _ _ => rfl

theorem Wire.flat_choice (family : Family) : (choice family).Flat := by
  intro sc sc' htypes v
  show Decoding.ofExcept (Choice.decode sc.types family .text v) = _
  rw [htypes]
  rfl

/-- No member under which records stand is left out: under the others there are none. -/
theorem RecordKind.flat_of_not_nested (k : RecordKind) :
    ∀ x ∈ Record.fields (R := k.Carrier), x.key.name ∈ k.nested.map (·.1) ∨ x.wire.Flat := by
  refine List.forall_iff_forall_mem.1 ?_
  cases k with
  | comid => exact ⟨.inr (Wire.flat_coding _), .inl (by decide), .inl (by decide), .inl (by decide)⟩
  | tagIdentity => exact ⟨.inr (Wire.flat_choice _), .inr (Wire.flat_coding _)⟩
  | entity =>
    exact ⟨.inr (Wire.flat_choice _), .inr (Wire.flat_coding _), .inr (Wire.flat_coding _)⟩
  | triples => exact ⟨.inl (by decide), .inl (by decide)⟩
  | environment => exact .inl (by decide)
  | class_ =>
    exact ⟨.inr (Wire.flat_choice _), .inr (Wire.flat_coding _), .inr (Wire.flat_coding _),
      .inr (Wire.flat_coding _), .inr (Wire.flat_coding _)⟩
  | measurement => exact .inl (by decide)
  | mval =>
    exact ⟨.inl (by decide), .inr (Wire.flat_coding _), .inr (Wire.flat_coding _),
      .inr (Wire.flat_coding _), .inr (Wire.flat_coding _)⟩
  | version => exact ⟨.inr (Wire.flat_coding _), .inr (Wire.flat_coding _)⟩
  | unsignedCorim =>
    exact ⟨.inr (Wire.flat_choice _), .inl (by decide), .inr (Wire.flat_coding _),
      .inl (by decide), .inl (by decide)⟩
  | meta_ => exact ⟨.inl (by decide), .inl (by decide)⟩
  | signer => exact ⟨.inr (Wire.flat_coding _), .inr (Wire.flat_coding _)⟩
  | validity => exact ⟨.inr (Wire.flat_coding _), .inr (Wire.flat_coding _)⟩

namespace Site

variable {sc : Scope}

/-- What stands inside a value that has been read has been read. -/
theorem ReadIn.inside {whole part : Site × Json} (h : ReadIn sc whole)
    (hpart : Inside whole part) : ReadIn sc part := by
  cases hpart with
  | @member k members name nested content site v hnested hmem hholds =>
    obtain ⟨_, n, r, ⟨⟩, hread⟩ := h
    obtain ⟨x, hx, hreads⟩ := k.nested_readBy (name, nested) hnested
    obtain ⟨m, b, hb⟩ := Record.exists_decode_of_mem hread hmem rfl hx
    exact hreads sc content m b hb site v hholds
  | @environment t e ms hparts =>
    obtain ⟨n, t, ht⟩ := h
    obtain ⟨parts, hparts', hread⟩ := Decoding.ofExcept_bind_eq_ok_iff.1 ht
    obtain rfl := Except.ok.inj (hparts.symm.trans hparts')
    obtain ⟨m, _, environment, _, he, -, -⟩ := ValueTriple.decodeParts_cases hread
    exact readIn_record (k := .environment) rfl he
  | @measurement t e v items hparts hv =>
    obtain ⟨n, t, ht⟩ := h
    obtain ⟨parts, hparts', hread⟩ := Decoding.ofExcept_bind_eq_ok_iff.1 ht
    obtain rfl := Except.ok.inj (hparts.symm.trans hparts')
    obtain ⟨_, m, _, measurements, -, hms, -⟩ := ValueTriple.decodeParts_cases hread
    obtain ⟨k, measurement, hmeasurement⟩ := forall_mem_of_list hms rfl v hv
    exact readIn_record (k := .measurement) rfl hmeasurement

/-- What stands at any depth in a value that has been read has been read. -/
theorem ReadIn.within {whole part : Site × Json} (h : ReadIn sc whole) (hpart : Within whole part) :
    ReadIn sc part := by
  induction hpart with
  | refl => exact h
  | tail _ hinside ih => exact ih.inside hinside

end Site

/-! ## Known members -/

/-- A member of a record of a kind that a reader knows when the shapes of a map are in force: a
fixed field, or an extension that the shape for the kind declares. -/
def RecordKind.Knows (k : RecordKind) (m : ExtensionMap) (name : String) : Prop :=
  (∃ x ∈ Record.fields (R := k.Carrier), x.key.name = name) ∨
    ∃ shape, Record.shape? k.Carrier m = some shape ∧ ∃ z ∈ shape.fields, z.wire.name = name

/-- In a strict scope a record that has been read has members that the reader knows, no other. -/
theorem Site.ReadIn.knows {sc : Scope} (hstrict : sc.strict = true) {k : RecordKind} {v : Json}
    (h : Site.ReadIn sc (.record k, v)) :
    ∃ members, v = .object members ∧ ∀ e ∈ members, k.Knows sc.bindings e.1 := by
  obtain ⟨members, n, r, rfl, hread⟩ := h
  refine ⟨members, rfl, fun (name, content) he => ?_⟩
  obtain ⟨key, r₁, n₁, y₁, hkey, hstored⟩ := Record.stored_of_mem hread he
  obtain rfl : name = key := Except.ok.inj hkey
  cases hstored with
  | @field x _ _ hx _ =>
    have hname := List.find?_some hx
    exact .inl ⟨x, List.mem_of_find?_eq_some hx, of_decide_eq_true hname⟩
  | @extension shape z _ _ hshape hz _ =>
    obtain ⟨hmem, hname⟩ := ExtensionShape.mem_of_byWire? hz
    exact .inr ⟨shape, hshape, z, hmem, hname⟩
  | unknown _ _ hskip =>
    -- A strict scope passes over nothing.
    rw [Scope.skipUnknown, if_pos hstrict] at hskip
    cases hskip

end Rim
