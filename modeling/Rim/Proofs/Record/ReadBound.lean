import Rim.Proofs.Extension.Run
import Rim.Proofs.Record.Bound
import Rim.Proofs.Record.Document

/-!
# What reading makes of extension sets

* `ExtensionSet.AsRead`, `Graph.AsRead`: a set is bound to the shape in force, and its entries have
  not stood under the keys of fixed fields.
* `Record.asRead_of_decodeEntries`: whatever the kind of record, its own set is so when it has been
  read.
* `Entity.readsSets` and its siblings: so are those of the records in it.
* `Comid.AsRead`: so are those of a tag, but for its triples if it has none on the wire: they are
  never read then, and stay as they are in an empty tag.
* `RecordKind.TagIn`: the tags on the wire in a document.
* `RecordKind.asRead_of_decode`: documents of every kind, in the shapes in force in them.
-/

namespace Rim

variable {f : Form} {sc : Scope}

/-! ## Sets -/

namespace ExtensionSet

/-- What a set is like when it has been read: bound to the shape in force, and each of its keys is
that of a declared field which does not go by the key of a fixed one in the form. -/
structure AsRead (set : ExtensionSet) (f : Form) (fixed : List FieldKey)
    (shape? : Option ExtensionShape) : Prop where
  bound : set.BoundTo shape?
  apart : ∀ key ∈ set.entries.keys, ∃ shape, shape? = some shape ∧ ∃ z ∈ shape.fields,
    z.key = key ∧ ∀ k ∈ fixed, f.keyOf k ≠ f.keyOf z.wire

/-- Nothing has been read into a new set. -/
theorem asRead_bindOptional (f : Form) (fixed : List FieldKey) (shape? : Option ExtensionShape) :
    (empty.bindOptional shape?).AsRead f fixed shape? := by
  refine ⟨boundTo_bindOptional shape?, fun key hkey => ?_⟩
  cases shape? <;> exact absurd hkey List.not_mem_nil

theorem AsRead.setDecoded {set : ExtensionSet} {fixed : List FieldKey} {shape : ExtensionShape}
    (h : set.AsRead f fixed (some shape)) {z : ExtensionField} (hz : z ∈ shape.fields)
    (hfree : ∀ k ∈ fixed, f.keyOf k ≠ f.keyOf z.wire) (value : ExtensionValue) :
    (set.setDecoded z.key value).AsRead f fixed (some shape) := by
  refine ⟨h.bound.setDecoded (List.find?_isSome.2 ⟨z, hz, by simp⟩) value, fun key hkey => ?_⟩
  obtain ⟨e, he, rfl⟩ := List.mem_map.1 hkey
  rcases Keyed.mem_insert he with rfl | he
  · exact ⟨shape, rfl, z, hz, rfl, hfree⟩
  · exact h.apart e.1 (List.mem_map_of_mem he)

theorem AsRead.read {set : ExtensionSet} {fixed : List FieldKey} {shape? : Option ExtensionShape}
    (h : set.AsRead f fixed shape?) {key : f.Key} (hfree : ∀ k ∈ fixed, f.keyOf k ≠ key)
    (v : f.Value) : (set.read f key v).AsRead f fixed shape? := by
  unfold ExtensionSet.read
  split
  · exact h
  next z hz =>
    split
    · exact h
    next value _ =>
      rw [h.bound.shape] at hz
      obtain ⟨shape, rfl, hwire⟩ := Option.bind_eq_some_iff.1 hz
      obtain ⟨hmem, rfl⟩ := ExtensionShape.mem_of_byWire? hwire
      exact h.setDecoded hmem hfree value

/-- A run of reads that leaves out the fixed keys keeps a set so. -/
theorem AsRead.changes {set : ExtensionSet} {fixed : List FieldKey} {shape? : Option ExtensionShape}
    (h : set.AsRead f fixed shape?) {cs : List Change}
    (hcs : ∀ c ∈ cs, ∃ key v, (∀ k ∈ fixed, f.keyOf k ≠ key) ∧ c = .read f key v) :
    (set.changes cs).AsRead f fixed shape? := by
  induction cs generalizing set with
  | nil => exact h
  | cons c rest ih =>
    obtain ⟨key, v, hfree, rfl⟩ := hcs c (by simp)
    exact ih (h.read hfree v) fun c hc => hcs c (List.mem_cons_of_mem _ hc)

end ExtensionSet

/-- Every extension set of a record graph is as one that has been read with the shapes of a map. -/
def Graph.AsRead {R : Type} [Graph R] (f : Form) (m : ExtensionMap) (r : R) : Prop :=
  Graph.EverySet (fun point set => set.AsRead f point.fixed (m.find? point)) r

theorem Graph.AsRead.bound {R : Type} [Graph R] {m : ExtensionMap} {r : R}
    (h : Graph.AsRead f m r) : Graph.Bound m r := h.imp fun _ _ hset => hset.bound

/-! ## Records -/

namespace Record

variable {R : Type} [Record R]

/-- The own set of a record that has been read is bound to the shape in force for its kind, and what
stands in it was under no key of a fixed field. -/
theorem asRead_of_decodeEntries [LawfulRecord R] {h : ExtensionHost R}
    (hhost : host (R := R) = some h) {entries : List (f.RawKey × f.Value)} {n : Nat} {y : R}
    (hread : decodeEntries f sc [] entries (bindOwn sc.bindings empty) = ⟨n, .ok y⟩) :
    (h.get y).AsRead f ((fields (R := R)).map (·.key)) (shape? R sc.bindings) := by
  obtain ⟨cs, hcs, hget⟩ := exists_changes_of_decodeEntries hhost hread
  rw [hget]
  refine (ExtensionSet.asRead_bindOptional f _ _).changes fun c hc => ?_
  obtain ⟨key, v, hfree, rfl⟩ := hcs c hc
  refine ⟨key, v, fun k hk hkey => ?_, rfl⟩
  obtain ⟨x, hx, rfl⟩ := List.mem_map.1 hk
  rw [← hkey, field?_of_mem hx] at hfree
  cases hfree

/-- Every record of a kind that has been read has such sets throughout. -/
def ReadsSets (R : Type) [Record R] [Graph R] (f : Form) (sc : Scope) : Prop :=
  ∀ entries n (y : R), decodeEntries f sc [] entries (bindOwn sc.bindings empty) = ⟨n, .ok y⟩ →
    Graph.AsRead f sc.bindings y

end Record

namespace Wire

/-- Every content that has been read has such sets throughout. -/
def ReadsSets {α : Type} [Graph α] (w : Wire α) (f : Form) (sc : Scope) : Prop :=
  ∀ v n a, w.decode f sc v = ⟨n, .ok a⟩ → Graph.AsRead f sc.bindings a

theorem ReadsSets.list {α : Type} [Graph α] {w : Wire α} (h : w.ReadsSets f sc) {v : f.Value}
    {n : Nat} {as : List α} (has : (Wire.list w).decode f sc v = ⟨n, .ok as⟩) :
    ∀ a ∈ as, Graph.AsRead f sc.bindings a := by
  obtain ⟨items, -, hitems⟩ := Decoding.ofExcept_bind_eq_ok_iff.1 has
  exact forall_mem_right_of_forall₂ ((Decoding.forall₂_of_listFrom hitems).imp
    fun item a ⟨m, ha⟩ => h item m a ha)

theorem readsSets_record {R : Type} [Record R] [Graph R]
    (hprofile : Record.profileField (R := R) = none) (h : Record.ReadsSets R f sc) :
    (Record.wire R).ReadsSets f sc := by
  intro v n y hy
  obtain ⟨entries, -, hread⟩ := Record.decode_cases hy
  have hhint : Record.profileHint R f entries = none := by simp [Record.profileHint, hprofile]
  rw [hhint] at hread
  exact h entries n y hread

end Wire

/-! ## The kinds of records -/

theorem Entity.readsSets : Record.ReadsSets Entity f sc := fun _ _ e h =>
  e.everySet_iff.2 (Record.asRead_of_decodeEntries rfl h)

theorem Class.readsSets : Record.ReadsSets Class f sc := fun _ _ c h =>
  c.everySet_iff.2 (Record.asRead_of_decodeEntries rfl h)

theorem Mval.readsSets : Record.ReadsSets Mval f sc := fun _ _ v h =>
  v.everySet_iff.2 (Record.asRead_of_decodeEntries rfl h)

/-! ### Records in fields -/

section

variable {R α : Type} [Graph α] {w : Wire α} {x : Field R} {entries : List (f.RawKey × f.Value)}

/-- A record that has been read in a place which was empty has sets that have been read. -/
theorem Record.Held.asRead_some (hw : w.ReadsSets f sc) {put : x.Content → Option α}
    (hread : ∀ v n b, x.wire.decode f sc v = ⟨n, .ok b⟩ →
      ∃ a, put b = some a ∧ w.decode f sc v = ⟨n, .ok a⟩)
    {a? : Option α} (h : Record.Held f sc x put none entries a?) {a : α} (ha : a? = some a) :
    Graph.AsRead f sc.bindings a := by
  cases h with
  | read _ _ _ hb hput =>
    obtain ⟨a', ha', hdecode⟩ := hread _ _ _ hb
    obtain rfl : a' = a := Option.some.inj (ha'.symm.trans (hput.symm.trans ha))
    exact hw _ _ _ hdecode
  | absent _ hnone =>
    rw [ha] at hnone
    cases hnone

/-- A list that has been read in a place which was empty holds such records only. -/
theorem Record.Held.asRead_list (hw : w.ReadsSets f sc) {put : x.Content → List α}
    (hread : ∀ v n b, x.wire.decode f sc v = ⟨n, .ok b⟩ →
      (Wire.list w).decode f sc v = ⟨n, .ok (put b)⟩)
    {as : List α} (h : Record.Held f sc x put [] entries as) :
    ∀ a ∈ as, Graph.AsRead f sc.bindings a := by
  cases h with
  | read _ _ _ hb hput =>
    rw [hput]
    exact hw.list (hread _ _ _ hb)
  | absent _ hnil =>
    rw [hnil]
    exact fun _ ha => absurd ha List.not_mem_nil

end

theorem Environment.place_class : Record.Place Environment.fields[0] Environment.class_ some := by
  refine ⟨fun _ _ => rfl, ?_, fun _ _ => rfl⟩
  simp [Record.fields, Environment.fields]

theorem Environment.readsSets : Record.ReadsSets Environment f sc := by
  intro entries n e h
  have hclass := Record.held (List.getElem_mem _) place_class h
  exact e.everySet_iff.2 fun c hc =>
    hclass.asRead_some (Wire.readsSets_record rfl Class.readsSets)
      (fun _ _ b hb => ⟨b, rfl, hb⟩) hc

theorem Measurement.place_value : Record.Place Measurement.fields[0] Measurement.value some := by
  refine ⟨fun _ _ => rfl, ?_, fun _ _ => rfl⟩
  simp [Record.fields, Measurement.fields]

theorem Measurement.readsSets : Record.ReadsSets Measurement f sc := by
  intro entries n x h
  have hvalue := Record.held (List.getElem_mem _) place_value h
  exact x.everySet_iff.2 fun v hv =>
    hvalue.asRead_some (Wire.readsSets_record rfl Mval.readsSets) (fun _ _ b hb => ⟨b, rfl, hb⟩) hv

theorem ValueTriple.readsSets : ValueTriple.wire.ReadsSets f sc := by
  have hparts : ∀ e ms n (t : ValueTriple), decodeParts f sc e ms = ⟨n, .ok t⟩ →
      Graph.AsRead f sc.bindings t := by
    intro e ms n t ht
    obtain ⟨_, _, environment, measurements, he, hms, rfl⟩ := decodeParts_cases ht
    refine (ValueTriple.everySet_iff _).2 ⟨?_, ?_⟩
    · exact Wire.readsSets_record rfl Environment.readsSets _ _ _ he
    · exact (Wire.readsSets_record rfl Measurement.readsSets).list hms
  intro v n t ht
  cases f with
  | binary =>
    obtain ⟨⟨e, ms⟩, -, ht⟩ := Decoding.ofExcept_bind_eq_ok_iff.1 ht
    exact hparts e ms n t ht
  | text =>
    obtain ⟨⟨e, ms⟩, -, ht⟩ := Decoding.ofExcept_bind_eq_ok_iff.1 ht
    exact hparts e ms n t ht

theorem Triples.place_referenceValues :
    Record.Place Triples.fields[0] Triples.referenceValues id := by
  refine ⟨fun _ _ => rfl, ?_, fun _ _ => rfl⟩
  simp [Record.fields, Triples.fields, Field.of]

theorem Triples.place_endorsedValues :
    Record.Place Triples.fields[1] Triples.endorsedValues id := by
  refine ⟨fun _ _ => rfl, ?_, fun _ _ => rfl⟩
  simp [Record.fields, Triples.fields, Field.of]

theorem Triples.readsSets : Record.ReadsSets Triples f sc := by
  intro entries n t h
  have hreference := Record.held (List.getElem_mem _) place_referenceValues h
  have hendorsed := Record.held (List.getElem_mem _) place_endorsedValues h
  refine t.everySet_iff.2 ⟨⟨?_, ?_⟩, Record.asRead_of_decodeEntries rfl h⟩
  · exact hreference.asRead_list ValueTriple.readsSets fun _ _ _ hb => hb
  · exact hendorsed.asRead_list ValueTriple.readsSets fun _ _ _ hb => hb

/-! ## Tags -/

/-- The value is a record in which an entry for a field has a given value. -/
def Form.Entry (f : Form) (key : FieldKey) (v content : f.Value) : Prop :=
  ∃ entries, f.members v = .ok entries ∧
    ∃ raw, (raw, content) ∈ entries ∧ f.readKey raw = .ok (f.keyOf key)

/-- The value is a record with an entry for a field. -/
def Form.HasEntry (f : Form) (key : FieldKey) (v : f.Value) : Prop :=
  ∃ content, f.Entry key v content

theorem Form.entry_iff {key : FieldKey} {v content : f.Value} {entries : List (f.RawKey × f.Value)}
    (h : f.members v = .ok entries) :
    f.Entry key v content ↔
      ∃ raw, (raw, content) ∈ entries ∧ f.readKey raw = .ok (f.keyOf key) := by
  simp [Form.Entry, h]

namespace Comid

/-- The key of the triples. -/
def triplesKey : FieldKey := ⟨4, "triples"⟩

/-- What a tag is like when it has been read: all its sets are, but for those of its triples. They
are those of an empty tag if it carries none on the wire. -/
structure AsRead (f : Form) (m : ExtensionMap) (carries : Prop) (c : Comid) : Prop where
  entities : ∀ e ∈ c.entities, Graph.AsRead f m e
  extensions : c.extensions.AsRead f ExtensionPoint.comids.fixed (m.find? .comids)
  triples : carries → Graph.AsRead f m c.triples
  absent : ¬ carries → c.triples = {}

theorem place_entities : Record.Place Comid.fields[2] Comid.entities id := by
  refine ⟨fun _ _ => rfl, ?_, fun _ _ => rfl⟩
  simp [Record.fields, Comid.fields, Field.of]

theorem place_triples : Record.Place Comid.fields[3] Comid.triples id := by
  refine ⟨fun _ _ => rfl, ?_, fun _ _ => rfl⟩
  simp [Record.fields, Comid.fields, Field.of]

theorem asRead_of_decodeEntries {v : f.Value} {entries : List (f.RawKey × f.Value)}
    (hentries : f.members v = .ok entries) {n : Nat} {c : Comid}
    (h : Record.decodeEntries f sc [] entries (Record.bindOwn sc.bindings Record.empty) =
      ⟨n, .ok c⟩) : c.AsRead f sc.bindings (f.HasEntry triplesKey v) := by
  have hentities := Record.held (List.getElem_mem _) place_entities h
  have htriples := Record.held (List.getElem_mem _) place_triples h
  constructor
  · exact hentities.asRead_list (Wire.readsSets_record rfl Entity.readsSets) fun _ _ _ hb => hb
  · exact Record.asRead_of_decodeEntries rfl h
  · rintro ⟨content, hentry⟩
    obtain ⟨raw, hmem, hkey⟩ := (Form.entry_iff hentries).1 hentry
    cases htriples with
    | read _ _ _ hb hput =>
      rw [hput]
      exact Wire.readsSets_record rfl Triples.readsSets _ _ _ hb
    | absent hnone => exact absurd hkey (hnone _ hmem)
  · intro hcarries
    cases htriples with
    | @read raw content _ _ hmem hkey =>
      exact absurd ⟨content, (Form.entry_iff hentries).2 ⟨raw, hmem, hkey⟩⟩ hcarries
    | absent _ hempty => exact hempty

theorem asRead_of_decode {v : f.Value} {n : Nat} {c : Comid}
    (h : (Record.wire Comid).decode f sc v = ⟨n, .ok c⟩) :
    c.AsRead f sc.bindings (f.HasEntry triplesKey v) := by
  obtain ⟨entries, hentries, hread⟩ := Record.decode_cases h
  exact asRead_of_decodeEntries hentries hread

/-- An empty tag's triples are not bound if there is a shape for them. -/
theorem AsRead.bound_iff {m : ExtensionMap} {carries : Prop} {c : Comid}
    (h : c.AsRead f m carries) : Graph.Bound m c ↔ m.find? .triples = none ∨ carries := by
  have hparts : Graph.Bound m c ↔ Graph.Bound m c.triples := by
    refine c.everySet_iff.trans ⟨fun hc => hc.1.2, fun hc => ⟨⟨fun e he => ?_, hc⟩, ?_⟩⟩
    · exact (h.entities e he).bound
    · exact h.extensions.bound
  rw [hparts]
  by_cases hcarries : carries
  · exact iff_of_true (h.triples hcarries).bound (.inr hcarries)
  · rw [h.absent hcarries]
    refine (Triples.everySet_iff _).trans ?_
    simp [hcarries, ExtensionSet.boundTo_empty_iff]

/-- Whatever it carries, all its sets have been read, or are empty without a shape if they are of
triples. -/
theorem AsRead.everySet {m : ExtensionMap} {carries : Prop} {c : Comid} (h : c.AsRead f m carries) :
    Graph.EverySet (fun point set => set.AsRead f point.fixed (m.find? point) ∨
      point = .triples ∧ set = .empty) c := by
  refine c.everySet_iff.2 ⟨⟨fun e he => ?_, ?_⟩, .inl h.extensions⟩
  · exact Graph.EverySet.imp (h.entities e he) fun _ _ hset => .inl hset
  · by_cases hcarries : carries
    · exact Graph.EverySet.imp (h.triples hcarries) fun _ _ hset => .inl hset
    · rw [h.absent hcarries]
      refine (Triples.everySet_iff _).2 ⟨⟨?_, ?_⟩, .inr ⟨rfl, rfl⟩⟩
      · exact fun _ hv => absurd hv List.not_mem_nil
      · exact fun _ hv => absurd hv List.not_mem_nil

end Comid

/-! ## Tags of documents -/

theorem Comid.asRead_of_decode_embedded {v : f.Value} {n : Nat} {c : Comid}
    (h : embedded.decode f sc v = ⟨n, .ok c⟩) :
    ∃ w, unwrap f v = .ok w ∧ c.AsRead f sc.bindings (f.HasEntry triplesKey w) := by
  rw [decode_embedded] at h
  obtain ⟨w, hw, hread⟩ := Decoding.ofExcept_bind_eq_ok_iff.1 h
  exact ⟨w, hw, asRead_of_decode hread⟩

namespace UnsignedCorim

/-- The key of the tags. -/
def tagsKey : FieldKey := ⟨1, "tags"⟩

theorem place_tags : Record.Place UnsignedCorim.fields[1] UnsignedCorim.tags (fun b => b) := by
  refine ⟨fun _ _ => rfl, ?_, fun _ _ => rfl⟩
  simp [Record.fields, UnsignedCorim.fields, Field.of, profileKey]

theorem place_entities :
    Record.Place UnsignedCorim.fields[4] UnsignedCorim.entities (fun b => b) := by
  refine ⟨fun _ _ => rfl, ?_, fun _ _ => rfl⟩
  simp [Record.fields, UnsignedCorim.fields, Field.of, profileKey]

/-- A tag of a manifest on the wire. -/
def TagIn (f : Form) (v w : f.Value) : Prop :=
  ∃ content items item, f.Entry tagsKey v content ∧ f.elements content = .ok items ∧
    item ∈ items ∧ Comid.unwrap f item = .ok w

/-- The tags of a manifest have been read from its tags on the wire, in order. -/
theorem tags_asRead {v : f.Value} {entries : List (f.RawKey × f.Value)}
    (hentries : f.members v = .ok entries) {n : Nat} {x : UnsignedCorim}
    (h : Record.decodeEntries f sc [] entries (Record.bindOwn sc.bindings Record.empty) =
      ⟨n, .ok x⟩) :
    ∃ items, (∀ w, TagIn f v w ↔ ∃ item ∈ items, Comid.unwrap f item = .ok w) ∧
      List.Forall₂ (fun item c => ∃ w, Comid.unwrap f item = .ok w ∧
        Comid.AsRead f sc.bindings (f.HasEntry Comid.triplesKey w) c) items x.tags := by
  cases Record.held (List.getElem_mem _) place_tags h with
  | @read raw content m cs hmem hkey honly hread hput =>
    obtain ⟨items, hitems, hlist⟩ := Decoding.ofExcept_bind_eq_ok_iff.1 hread
    refine ⟨items, fun w => ?_, ?_⟩
    · constructor
      · rintro ⟨content', items', item, hentry, hitems', hitem, hw⟩
        obtain ⟨raw', hmem', hkey'⟩ := (Form.entry_iff hentries).1 hentry
        -- There is one entry for the tags only.
        obtain ⟨rfl, rfl⟩ := Prod.mk.inj (honly _ hmem' hkey')
        obtain rfl := Except.ok.inj (hitems.symm.trans hitems')
        exact ⟨item, hitem, hw⟩
      · rintro ⟨item, hitem, hw⟩
        have hentry := (Form.entry_iff hentries).2 ⟨raw, hmem, hkey⟩
        exact ⟨content, items, item, hentry, hitems, hitem, hw⟩
    · rw [hput]
      exact (Decoding.forall₂_of_listFrom hlist).imp fun item c ⟨_, hc⟩ =>
        Comid.asRead_of_decode_embedded hc
  | absent hnone hnil =>
    refine ⟨[], fun w => ?_, ?_⟩
    · refine iff_of_false ?_ (by simp)
      rintro ⟨content, -, -, hentry, -⟩
      obtain ⟨raw, hmem, hkey⟩ := (Form.entry_iff hentries).1 hentry
      exact hnone _ hmem hkey
    · rw [hnil]
      exact .nil

end UnsignedCorim

namespace RecordKind

/-- A tag on the wire in a document: the document itself, or one in a manifest. -/
def TagIn : (k : RecordKind) → (f : Form) → (v w : f.Value) → Prop
  | .comid, _, v, w => w = v
  | .unsignedCorim, f, v, w => UnsignedCorim.TagIn f v w
  | _, _, _, _ => False

/-- The triples of every tag in a document can be bound: there is no shape for them, or the tag
carries triples. -/
def TriplesBindable (k : RecordKind) (m : ExtensionMap) (f : Form) (v : f.Value) : Prop :=
  m.find? .triples = none ∨ ∀ w, k.TagIn f v w → f.HasEntry Comid.triplesKey w

/-- What a document is like when it has been read: bound, but for the triples of tags that carry
none, with sets that have been read. -/
structure AsRead (k : RecordKind) (m : ExtensionMap) (f : Form) (v : f.Value) (r : k.Carrier) :
    Prop where
  bound_iff : Graph.Bound m r ↔ k.TriplesBindable m f v
  everySet : Graph.EverySet (fun point set => set.AsRead f point.fixed (m.find? point) ∨
    point = .triples ∧ set = .empty) r

/-- A kind of record that holds no tag is bound. -/
theorem asRead_of_noTags {k : RecordKind} {m : ExtensionMap} {v : f.Value} {r : k.Carrier}
    (htags : ∀ w, ¬ k.TagIn f v w) (h : Graph.AsRead f m r) : k.AsRead m f v r :=
  ⟨iff_of_true h.bound (.inr fun w hw => absurd hw (htags w)), h.imp fun _ _ hset => .inl hset⟩

theorem asRead_unsignedCorim {v : f.Value} {entries : List (f.RawKey × f.Value)}
    (hentries : f.members v = .ok entries) {n : Nat} {x : UnsignedCorim}
    (h : Record.decodeEntries f sc [] entries (Record.bindOwn sc.bindings Record.empty) =
      ⟨n, .ok x⟩) : RecordKind.unsignedCorim.AsRead sc.bindings f v x := by
  obtain ⟨items, htagIn, htags⟩ := UnsignedCorim.tags_asRead hentries h
  have hentities := (Record.held (List.getElem_mem _) UnsignedCorim.place_entities h).asRead_list
    (Wire.readsSets_record rfl Entity.readsSets) fun _ _ _ hb => hb
  have hown := Record.asRead_of_decodeEntries rfl h
  constructor
  · have hparts : Graph.Bound sc.bindings x ↔ ∀ c ∈ x.tags, Graph.Bound sc.bindings c :=
      x.everySet_iff.trans ⟨fun hx => hx.1.1, fun hx =>
        ⟨⟨hx, fun e he => (hentities e he).bound⟩, hown.bound⟩⟩
    have hitems : (∀ item ∈ items, sc.bindings.find? .triples = none ∨
        ∀ w, Comid.unwrap f item = .ok w → f.HasEntry Comid.triplesKey w) ↔
        ∀ c ∈ x.tags, Graph.Bound sc.bindings c := by
      refine forall_mem_iff_of_forall₂ (htags.imp fun item c ⟨w, hw, hc⟩ => ?_)
      rw [hc.bound_iff]
      simp [hw]
    rw [hparts, ← hitems]
    show _ ↔ _ ∨ ∀ w, UnsignedCorim.TagIn f v w → _
    simp only [htagIn]
    by_cases hnone : sc.bindings.find? .triples = none
    · simp only [hnone, true_or, implies_true]
    · simp only [hnone, false_or]
      exact ⟨fun hw w ⟨item, hitem, hunwrap⟩ => hw item hitem w hunwrap,
        fun hw item hitem w hunwrap => hw w ⟨item, hitem, hunwrap⟩⟩
  · refine x.everySet_iff.2 ⟨⟨?_, fun e he => ?_⟩, .inl hown⟩
    · exact forall_mem_right_of_forall₂ (htags.imp fun _ _ ⟨_, _, hc⟩ => hc.everySet)
    · exact (hentities e he).imp fun _ _ hset => .inl hset

/-- Documents of every kind, in the shapes in force in them. -/
theorem asRead_of_decode (k : RecordKind) {c : Codec} {reg : Registry} {v : f.Value} {n : Nat}
    {r : k.Carrier} (h : Record.decode f (c.scope reg) v = ⟨n, .ok r⟩) :
    k.AsRead (k.codecFor c reg f v).bindings f v r := by
  obtain ⟨entries, hentries, hread⟩ := Record.decode_cases h
  rw [k.scopedTo_profileHint c reg hentries] at hread
  cases k with
  | comid =>
    have hcomid := Comid.asRead_of_decodeEntries hentries hread
    refine ⟨hcomid.bound_iff.trans ?_, hcomid.everySet⟩
    simp only [TriplesBindable, TagIn, forall_eq]
    rfl
  | tagIdentity => exact asRead_of_noTags (fun _ hw => hw) (TagIdentity.everySet r)
  | entity => exact asRead_of_noTags (fun _ hw => hw) (Entity.readsSets _ _ _ hread)
  | triples => exact asRead_of_noTags (fun _ hw => hw) (Triples.readsSets _ _ _ hread)
  | environment => exact asRead_of_noTags (fun _ hw => hw) (Environment.readsSets _ _ _ hread)
  | class_ => exact asRead_of_noTags (fun _ hw => hw) (Class.readsSets _ _ _ hread)
  | measurement => exact asRead_of_noTags (fun _ hw => hw) (Measurement.readsSets _ _ _ hread)
  | mval => exact asRead_of_noTags (fun _ hw => hw) (Mval.readsSets _ _ _ hread)
  | version => exact asRead_of_noTags (fun _ hw => hw) (Version.everySet r)
  | unsignedCorim => exact asRead_unsignedCorim hentries hread
  | meta_ => exact asRead_of_noTags (fun _ hw => hw) (Meta.everySet r)
  | signer => exact asRead_of_noTags (fun _ hw => hw) (Signer.everySet r)
  | validity => exact asRead_of_noTags (fun _ hw => hw) (Validity.everySet r)

end RecordKind

end Rim
