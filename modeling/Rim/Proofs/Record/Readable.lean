import Rim.Proofs.Record.Graph

/-!
# What is written is read back from octets

* `Wire.Writes`: whatever is written of a content is readable to a depth.
* `Part.plain_choice_iff`: the choices that are not written as numbers are the ones whose items are
  read back.
* `Record.writes_of_fields`: a record nests one level more than its fields.
* `Comid.writes` and its siblings: how deep the kinds of records nest, with choices that the binary
  form does not write as numbers.
-/

namespace Rim

/-- Whatever is written of the content is readable to a depth. -/
def Wire.Writes {α : Type} (w : Wire α) (f : Form) (types : TypeTable) (d : Nat) (a : α) : Prop :=
  ∀ v, w.encode f types a = .ok v → f.Readable d v

theorem Wire.Writes.mono {α : Type} {w : Wire α} {f : Form} {types : TypeTable} {d e : Nat} {a : α}
    (h : w.Writes f types d a) (hle : d ≤ e) : w.Writes f types e a := fun v hv => (h v hv).mono hle

theorem readable_of_forall₂ {α : Type} {w : Wire α} {f : Form} {types : TypeTable} {d : Nat}
    {as : List α} {items : List f.Value}
    (hitems : List.Forall₂ (fun a item => w.encode f types a = .ok item) as items)
    (h : ∀ a ∈ as, w.Writes f types d a) : ∀ item ∈ items, f.Readable d item := by
  induction hitems with
  | nil => simp
  | cons hencode _ ih =>
    refine List.forall_mem_cons.2 ⟨h _ (by simp) _ hencode, ih fun a ha => ?_⟩
    exact h a (List.mem_cons_of_mem _ ha)

theorem Wire.writes_list {α : Type} {w : Wire α} {f : Form} {types : TypeTable} {d : Nat}
    {as : List α} (h : ∀ a ∈ as, w.Writes f types d a) :
    (Wire.list w).Writes f types (d + 1) as := by
  intro v hv
  obtain ⟨items, hitems, hv⟩ := Except.bind_eq_ok_iff.1 hv
  obtain rfl := Except.pure_eq_ok_iff.1 hv
  exact Form.Readable.array (readable_of_forall₂ (Except.mapM_eq_ok_iff.1 hitems) h)

/-! ## Plain values -/

section

variable {f : Form} {types : TypeTable}

theorem writes_text (s : String) : Coding.text.toWire.Writes f types 1 s := by
  intro v hv
  cases f <;> cases hv
  · exact Cbor.Readable.text s
  · exact Json.Readable.string s

theorem writes_uint (n : UInt64) : Coding.uint.toWire.Writes f types 1 n := by
  intro v hv
  cases f <;> cases hv
  · exact Cbor.Readable.uint n
  · exact Json.Readable.number trivial

theorem writes_int (n : Int64) : Coding.int.toWire.Writes f types 1 n := by
  intro v hv
  cases f <;> cases hv
  · exact Form.readable_ofInt64 1 n
  · refine Json.Readable.number ?_
    unfold Json.Number.ofInt64
    split
    · trivial
    next hneg => exact not_le.1 hneg

theorem writes_bool (b : Bool) : Coding.bool.toWire.Writes f types 1 b := by
  intro v hv
  cases f <;> cases hv
  · exact Cbor.Readable.bool b
  · exact Json.Readable.bool b

theorem writes_bytes (bs : Bytes) : Coding.bytes.toWire.Writes f types 1 bs := by
  intro v hv
  cases f <;> cases hv
  · exact Cbor.Readable.bytes bs
  · exact Json.Readable.string _

/-- Only a byte string under the tag of a big number is taken for a number. -/
theorem readable_tag {number : UInt64} {content : Cbor} {d : Nat}
    (hnumber : number ≠ 2 ∧ number ≠ 3) (h : Cbor.Readable d content) :
    Cbor.Readable (d + 1) (.tag number content) := by
  refine Cbor.Readable.tag (fun hshort => ?_) h
  rcases hshort.1 with heq | heq
  · exact hnumber.1 heq
  · exact hnumber.2 heq

theorem readable_envelope {typeTag : String} {value : Json} {d : Nat} (h : Json.Readable d value) :
    Json.Readable (d + 1) (Json.Envelope.toJson ⟨typeTag, value⟩) := by
  have hnames : ["type", "value"].Nodup := by decide
  refine Json.Readable.object hnames fun m hm => ?_
  rcases List.mem_cons.1 hm with rfl | hm
  · exact Json.Readable.string typeTag
  · obtain rfl := List.mem_singleton.1 hm
    exact h

theorem writes_taggedUri (s : String) : Coding.taggedUri.toWire.Writes f types 1 s := by
  intro v hv
  cases f <;> cases hv
  · exact readable_tag (by decide) (.text s)
  · exact Json.Readable.string s

theorem writes_scheme (s : VersionScheme) : VersionScheme.coding.toWire.Writes f types 1 s := by
  intro v hv
  cases f <;> cases hv
  · exact Cbor.Readable.uint _
  · exact Json.Readable.string _

theorem writes_svn (n : Svn) : Svn.coding.toWire.Writes f types 1 n := by
  intro v hv
  cases f with
  | binary =>
    cases n <;> cases hv
    · exact readable_tag (by decide) (.uint _)
    · exact readable_tag (by decide) (.uint _)
  | text =>
    cases n <;> cases hv
    · exact readable_envelope (.number trivial)
    · exact readable_envelope (.number trivial)

theorem writes_time (t : Instant) : Instant.coding.toWire.Writes f types 1 t := by
  intro v hv
  cases f <;> cases hv
  · refine readable_tag (by decide) ?_
    unfold Cbor.ofInt
    split
    · exact .uint _
    · exact .nint _
  · exact Json.Readable.string _

theorem writes_profileId (id : ProfileId) : ProfileId.coding.toWire.Writes f types 1 id := by
  intro v hv
  cases f with
  | binary =>
    cases id with
    | uri s =>
      cases hv
      exact readable_tag (by decide) (.text s)
    | oid dotted =>
      cases hber : Oid.toBer dotted with
      | error e => simp [Coding.toWire, ProfileId.coding, ProfileId.toCbor, hber] at hv
      | ok ber =>
        obtain rfl : Cbor.tag TagNumber.oid (.bytes ber) = v := by
          simpa [Coding.toWire, ProfileId.coding, ProfileId.toCbor, hber] using hv
        exact readable_tag (by decide) (.bytes ber)
  | text =>
    cases hv
    exact Json.Readable.string _

/-- The elements of a list of coded values nest one level less than the list. -/
theorem writes_codingList {α : Type} {c : Coding α} {d : Nat} {xs : List α}
    (h : ∀ x ∈ xs, c.toWire.Writes f types d x) :
    (Coding.list c).toWire.Writes f types (d + 1) xs := fun v hv => Wire.writes_list h v hv

theorem writes_roles (roles : Roles) : Roles.coding.toWire.Writes f types 2 roles := by
  refine writes_codingList fun r _ v hv => ?_
  cases f <;> cases hv
  · exact Cbor.Readable.uint _
  · exact Json.Readable.string _

theorem writes_digests (ds : Digests) : Digests.coding.toWire.Writes f types 2 ds := by
  have hdigest : ∀ d ∈ ds.entries, Digest.coding.toWire.Writes f types 1 d := by
    intro d _ v hv
    cases f <;> cases hv
    · refine Cbor.Readable.array fun w hw => ?_
      rcases List.mem_cons.1 hw with rfl | hw
      · exact .uint _
      · obtain rfl := List.mem_singleton.1 hw
        exact .bytes _
    · exact Json.Readable.string _
  exact fun v hv => writes_codingList hdigest v hv

/-! ## Choices -/

theorem ChoiceValue.readable_toCbor {value : ChoiceValue} (hbase : value.IsBase) {payload : Cbor}
    (h : value.toCbor = .ok payload) : Cbor.Readable 0 payload := by
  cases value with
  | text s =>
    cases h
    exact .text s
  | oid dotted =>
    cases hber : Oid.toBer dotted with
    | error e => simp [toCbor, hber] at h
    | ok ber =>
      obtain rfl : Cbor.bytes ber = payload := by simpa [toCbor, hber] using h
      exact .bytes ber
  | uuid u =>
    cases h
    exact .bytes _
  | bytes bs =>
    cases h
    exact .bytes bs
  | custom variant content => exact hbase.elim

/-- A value of the base schema nests one level, unless it is written as a number. -/
theorem writes_choice {family : Family} {value : ChoiceValue} (hbase : value.IsBase)
    (hplain : f = .binary → (Part.choice family value).Plain types) :
    (Wire.choice family).Writes f types 1 value := by
  intro v hv
  cases f with
  | binary =>
    obtain ⟨variant, payload, hvariant, hpayload, hitem⟩ := Choice.encodeCbor_cases hv
    have hreadable := ChoiceValue.readable_toCbor hbase hpayload
    rcases Choice.encodePayload_cases hitem with
      ⟨s, -, -, rfl⟩ | ⟨bs, -, -, rfl⟩ | ⟨number, hnumber, rfl⟩
    · exact .text s
    · exact .bytes bs
    · exact .tag (hplain rfl variant number _ hvariant hnumber hpayload) hreadable
  | text =>
    obtain ⟨-, variant, payload, -, hpayload, rfl⟩ := Choice.encodeJson_cases hv
    obtain ⟨s, rfl⟩ := ChoiceValue.toJson_eq_string hbase hpayload
    split
    · exact Json.Readable.string s
    · exact readable_envelope (.string s)

/-- A choice is plain exactly if its item is read back from the octets. -/
theorem Part.plain_choice_iff {family : Family} {value : ChoiceValue} (hbase : value.IsBase)
    {item : Cbor} (h : Choice.encodeCbor types family value = .ok item)
    (hsize : (Cbor.write item).length < UInt64.size) :
    (Part.choice family value).Plain types ↔ Cbor.parse (Cbor.write item) = .ok item := by
  constructor
  · intro hplain
    have hreadable : Cbor.Readable 1 item :=
      writes_choice (f := .binary) hbase (fun _ => hplain) item h
    exact Cbor.parse_write (hreadable.mono (by decide)) hsize
  · intro hparse variant number payload hvariant hnumber hpayload hshort
    obtain ⟨found, content, hfound, hcontent, hitem⟩ := Choice.encodeCbor_cases h
    obtain rfl : variant = found := Option.some.inj (hvariant.symm.trans hfound)
    obtain rfl : payload = content := Except.ok.inj (hpayload.symm.trans hcontent)
    rw [hnumber] at hitem
    obtain rfl : Cbor.tag number payload = item := Except.ok.inj hitem
    obtain ⟨bs, rfl, -⟩ := hshort.2
    exact (Cbor.parse_write_tag_iff hsize).1 hparse hshort

/-! ## Extensions -/

theorem ExtensionValue.readable_encode {value : ExtensionValue} (hlib : value.IsLibrary)
    {v : f.Value} (h : value.encode f = .ok v) : f.Readable 2 v := by
  cases value with
  | uint n => exact (@writes_uint f [] n v h).mono (by decide)
  | int n => exact (@writes_int f [] n v h).mono (by decide)
  | bool b => exact (@writes_bool f [] b v h).mono (by decide)
  | string s => exact (@writes_text f [] s v h).mono (by decide)
  | bytes bs => exact (@writes_bytes f [] bs v h).mono (by decide)
  | digests ds => exact @writes_digests f [] ds v h
  | custom type content => exact hlib.elim

/-! ## Records -/

/-- Whatever is written of the field is readable to a depth. -/
def Field.Writes {R : Type} (x : Field R) (f : Form) (types : TypeTable) (d : Nat) (r : R) : Prop :=
  ∀ a, x.get r = some a → x.wire.Writes f types d a

theorem Field.writes_list {R α : Type} {slot : Int64} {name : String} {wire : Wire (List α)}
    {get : R → List α} {set : List α → R → R} {d : Nat} {r : R}
    (h : wire.Writes f types d (get r)) :
    (Field.of slot name wire (fun r => present? (get r)) set).Writes f types d r := by
  intro a ha
  obtain rfl := Field.eq_of_present? ha
  exact h

variable {sc : Scope}

/-- A record nests one level more than its fields. -/
theorem Record.writes_of_fields {R : Type} [Record R] [LawfulRecord R] {r : R} {d : Nat}
    (hd : 2 ≤ d) (hfields : (Record.fields (R := R)).Forall fun x => x.Writes f sc.types d r)
    (hset : Record.Restorable f sc.bindings r) : (Record.wire R).Writes f sc.types (d + 1) r := by
  intro v hv
  obtain ⟨fixed, extensions, hfixed, hextensions, rfl⟩ := Record.encode_cases hv
  refine Form.Readable.record (hset.nodup_keyOf hfixed hextensions) fun e he => ?_
  rcases List.mem_append.1 he with he | he
  · obtain ⟨x, hx, -, a, ha, hv⟩ := (Record.mem_encodeFields hfixed).1 he
    exact List.forall_iff_forall_mem.1 hfields x hx a ha e.2 hv
  · rcases Record.encodeExtensions_cases hextensions with ⟨-, rfl⟩ | ⟨h, hhost, hentries⟩
    · exact absurd he List.not_mem_nil
    · obtain ⟨z, -, -, value, hvalue, hv⟩ :=
        exists_mem_left_of_forall₂ (ExtensionSet.encode_held hentries) e he
      have hlib := (hset h hhost).1.library _ (Keyed.mem_of_find? hvalue)
      exact (ExtensionValue.readable_encode hlib hv).mono hd

/-- The same of a kind of record that cannot be extended. -/
theorem Record.writes_of_fields_fixed {R : Type} [Record R] [LawfulRecord R]
    (hhost : Record.host (R := R) = none) {r : R} {d : Nat} (hd : 2 ≤ d)
    (hfields : (Record.fields (R := R)).Forall fun x => x.Writes f sc.types d r) :
    (Record.wire R).Writes f sc.types (d + 1) r := by
  refine Record.writes_of_fields hd hfields fun h hh => ?_
  rw [hhost] at hh
  cases hh

theorem TagIdentity.writes {t : TagIdentity}
    (h : ∀ p ∈ Graph.parts t, p.Restorable f sc)
    (hplain : f = .binary → ∀ p ∈ Graph.parts t, p.Plain sc.types) :
    (Record.wire TagIdentity).Writes f sc.types 3 t := by
  have htagId : ∀ a, t.tagId = some a → (Wire.choice .tagId).Writes f sc.types 2 a := by
    intro a ha
    have hmem : Part.choice .tagId a ∈ Graph.parts t := by simp [Graph.parts, ha]
    exact (writes_choice (h _ hmem).1.base fun hf => hplain hf _ hmem).mono (by decide)
  exact Record.writes_of_fields_fixed rfl (by decide)
    ⟨htagId, fun n _ => (writes_uint n).mono (by decide)⟩

theorem Entity.writes {e : Entity} (h : ∀ p ∈ Graph.parts e, p.Restorable f sc)
    (hplain : f = .binary → ∀ p ∈ Graph.parts e, p.Plain sc.types) :
    (Record.wire Entity).Writes f sc.types 3 e := by
  have hname : ∀ a, e.name = some a → (Wire.choice .entityName).Writes f sc.types 2 a := by
    intro a ha
    have hmem : Part.choice .entityName a ∈ Graph.parts e := by simp [Graph.parts, ha]
    exact (writes_choice (h _ hmem).1.base fun hf => hplain hf _ hmem).mono (by decide)
  refine Record.writes_of_fields (by decide)
    ⟨hname, fun s _ => (writes_taggedUri s).mono (by decide),
      Field.writes_list (writes_roles e.roles)⟩ ?_
  rintro _ ⟨⟩
  exact h (.extensions .entities e.extensions) (by simp [Graph.parts])

theorem Class.writes {c : Class} (h : ∀ p ∈ Graph.parts c, p.Restorable f sc)
    (hplain : f = .binary → ∀ p ∈ Graph.parts c, p.Plain sc.types) :
    (Record.wire Class).Writes f sc.types 3 c := by
  have hclassId : ∀ a, c.classId = some a → (Wire.choice .classId).Writes f sc.types 2 a := by
    intro a ha
    have hmem : Part.choice .classId a ∈ Graph.parts c := by simp [Graph.parts, ha]
    exact (writes_choice (h _ hmem).1.base fun hf => hplain hf _ hmem).mono (by decide)
  refine Record.writes_of_fields (by decide)
    ⟨hclassId, fun s _ => (writes_text s).mono (by decide),
      fun s _ => (writes_text s).mono (by decide), fun n _ => (writes_uint n).mono (by decide),
      fun n _ => (writes_uint n).mono (by decide)⟩ ?_
  rintro _ ⟨⟩
  exact h (.extensions .classes c.extensions) (by simp [Graph.parts])

theorem Environment.writes {e : Environment}
    (h : ∀ p ∈ Graph.parts e, p.Restorable f sc)
    (hplain : f = .binary → ∀ p ∈ Graph.parts e, p.Plain sc.types) :
    (Record.wire Environment).Writes f sc.types 4 e := by
  refine Record.writes_of_fields_fixed rfl (by decide) fun c hc => ?_
  exact Class.writes (fun p hp => h p (parts_class hc hp))
    fun hf p hp => hplain hf p (parts_class hc hp)

theorem Version.writes (v : Version) : (Record.wire Version).Writes f sc.types 3 v :=
  Record.writes_of_fields_fixed rfl (by decide)
    ⟨fun s _ => (writes_text s).mono (by decide), fun s _ => (writes_scheme s).mono (by decide)⟩

theorem Mval.writes {m : Mval} (h : ∀ p ∈ Graph.parts m, p.Restorable f sc) :
    (Record.wire Mval).Writes f sc.types 4 m := by
  refine Record.writes_of_fields (by decide)
    ⟨fun v _ => v.writes, fun n _ => (writes_svn n).mono (by decide),
      fun ds _ => (writes_digests ds).mono (by decide), fun s _ => (writes_text s).mono (by decide),
      fun s _ => (writes_text s).mono (by decide)⟩ ?_
  rintro _ ⟨⟩
  exact h (.extensions .mval m.extensions) (by simp [Graph.parts])

theorem Measurement.writes {m : Measurement}
    (h : ∀ p ∈ Graph.parts m, p.Restorable f sc) :
    (Record.wire Measurement).Writes f sc.types 5 m := by
  refine Record.writes_of_fields_fixed rfl (by decide) fun v hv => ?_
  exact Mval.writes fun p hp => h p (parts_value hv hp)

theorem ValueTriple.encodeParts_cases {types : TypeTable} {t : ValueTriple}
    {parts : f.Value × f.Value} (h : encodeParts f types t = .ok parts) :
    (Record.wire Environment).encode f types t.environment = .ok parts.1 ∧
      (Wire.list (Record.wire Measurement)).encode f types t.measurements = .ok parts.2 := by
  obtain ⟨e, he, h⟩ := Except.bind_eq_ok_iff.1 h
  obtain ⟨ms, hms, h⟩ := Except.bind_eq_ok_iff.1 h
  obtain rfl := Except.pure_eq_ok_iff.1 h
  exact ⟨he, hms⟩

theorem ValueTriple.writes {t : ValueTriple}
    (h : ∀ p ∈ Graph.parts t, p.Restorable f sc)
    (hplain : f = .binary → ∀ p ∈ Graph.parts t, p.Plain sc.types) :
    ValueTriple.wire.Writes f sc.types 7 t := by
  intro v hv
  have henvironment : (Record.wire Environment).Writes f sc.types 6 t.environment :=
    (Environment.writes (fun p hp => h p (t.parts_environment hp))
      fun hf p hp => hplain hf p (t.parts_environment hp)).mono (by decide)
  have hmeasurements : (Wire.list (Record.wire Measurement)).Writes f sc.types 6 t.measurements :=
    Wire.writes_list fun m hm => Measurement.writes fun p hp => h p (parts_measurement hm hp)
  cases f with
  | binary =>
    obtain ⟨⟨e, ms⟩, hparts, hv⟩ := Except.bind_eq_ok_iff.1 hv
    obtain rfl := Except.pure_eq_ok_iff.1 hv
    obtain ⟨he, hms⟩ := encodeParts_cases hparts
    refine Cbor.Readable.array fun w hw => ?_
    rcases List.mem_cons.1 hw with rfl | hw
    · exact henvironment _ he
    · obtain rfl := List.mem_singleton.1 hw
      exact hmeasurements _ hms
  | text =>
    obtain ⟨⟨e, ms⟩, hparts, hv⟩ := Except.bind_eq_ok_iff.1 hv
    obtain rfl := Except.pure_eq_ok_iff.1 hv
    obtain ⟨he, hms⟩ := encodeParts_cases hparts
    have hnames : ["environment", "measurements"].Nodup := by decide
    refine Json.Readable.object hnames fun m hm => ?_
    rcases List.mem_cons.1 hm with rfl | hm
    · exact henvironment _ he
    · obtain rfl := List.mem_singleton.1 hm
      exact hmeasurements _ hms

theorem Triples.writes {t : Triples} (h : ∀ p ∈ Graph.parts t, p.Restorable f sc)
    (hplain : f = .binary → ∀ p ∈ Graph.parts t, p.Plain sc.types) :
    (Record.wire Triples).Writes f sc.types 9 t := by
  have hreference : listWire.Writes f sc.types 8 t.referenceValues :=
    Wire.writes_list fun v hv => ValueTriple.writes
      (fun p hp => h p (parts_referenceValue hv hp))
      fun hf p hp => hplain hf p (parts_referenceValue hv hp)
  have hendorsed : listWire.Writes f sc.types 8 t.endorsedValues :=
    Wire.writes_list fun v hv => ValueTriple.writes
      (fun p hp => h p (parts_endorsedValue hv hp))
      fun hf p hp => hplain hf p (parts_endorsedValue hv hp)
  refine Record.writes_of_fields (by decide)
    ⟨Field.writes_list hreference, Field.writes_list hendorsed⟩ ?_
  rintro _ ⟨⟩
  exact h (.extensions .triples t.extensions) (by simp [Graph.parts])

theorem Comid.writes {c : Comid} (h : ∀ p ∈ Graph.parts c, p.Restorable f sc)
    (hplain : f = .binary → ∀ p ∈ Graph.parts c, p.Plain sc.types) :
    (Record.wire Comid).Writes f sc.types 10 c := by
  have hidentity : ∀ a, c.tagIdentity = some a →
      (Record.wire TagIdentity).Writes f sc.types 9 a := fun a ha =>
    (TagIdentity.writes (fun p hp => h p (parts_tagIdentity ha hp))
      fun hf p hp => hplain hf p (parts_tagIdentity ha hp)).mono (by decide)
  have hentities : (Wire.list (Record.wire Entity)).Writes f sc.types 4 c.entities :=
    Wire.writes_list fun e he => Entity.writes (fun p hp => h p (parts_entity he hp))
      fun hf p hp => hplain hf p (parts_entity he hp)
  have htriples : (Record.wire Triples).Writes f sc.types 9 c.triples :=
    Triples.writes (fun p hp => h p (c.parts_triples hp))
      fun hf p hp => hplain hf p (c.parts_triples hp)
  refine Record.writes_of_fields (by decide)
    ⟨fun s _ => (writes_text s).mono (by decide), hidentity,
      Field.writes_list (hentities.mono (by decide)), fun a ha => ?_⟩ ?_
  · replace ha : (if c.triples.isEmpty then none else some c.triples) = some a := ha
    split at ha
    · cases ha
    · obtain rfl := Option.some.inj ha
      exact htriples
  · rintro _ ⟨⟩
    exact h (.extensions .comids c.extensions) (by simp [Graph.parts])

theorem Validity.writes (w : Validity) : (Record.wire Validity).Writes f sc.types 3 w :=
  Record.writes_of_fields_fixed rfl (by decide)
    ⟨fun t _ => (writes_time t).mono (by decide), fun t _ => (writes_time t).mono (by decide)⟩

theorem Signer.writes (s : Signer) : (Record.wire Signer).Writes f sc.types 3 s :=
  Record.writes_of_fields_fixed rfl (by decide)
    ⟨fun s _ => (writes_text s).mono (by decide), fun s _ => (writes_taggedUri s).mono (by decide)⟩

theorem Meta.writes (m : Meta) : (Record.wire Meta).Writes f sc.types 4 m :=
  Record.writes_of_fields_fixed rfl (by decide) ⟨fun s _ => s.writes, fun w _ => w.writes⟩

/-! ## Manifests -/

theorem Comid.writes_embedded {c : Comid}
    (h : ∀ p ∈ Graph.parts c, p.Restorable f sc) : Comid.embedded.Writes f sc.types 11 c := by
  intro v hv
  cases f with
  | binary =>
    -- Whatever the octets are, the manifest holds a byte string.
    obtain ⟨w, -, hv⟩ := Except.bind_eq_ok_iff.1 hv
    obtain rfl := Except.pure_eq_ok_iff.1 hv
    exact readable_tag (by decide) (.bytes _)
  | text =>
    obtain ⟨w, hw, hv⟩ := Except.bind_eq_ok_iff.1 hv
    obtain rfl := Except.pure_eq_ok_iff.1 hv
    exact readable_envelope (Comid.writes h (fun hf => by cases hf) w hw)

/-- Manifests nest thirteen levels. The scope is the one that the profile puts in force. -/
theorem UnsignedCorim.writes {m : UnsignedCorim}
    (h : ∀ p ∈ Graph.parts m, p.Restorable f sc)
    (hplain : f = .binary → ∀ p ∈ Graph.parts m, p.Plain sc.types) :
    (Record.wire UnsignedCorim).Writes f sc.types 13 m := by
  have hid : ∀ a, m.id = some a → (Wire.choice .corimId).Writes f sc.types 12 a := by
    intro a ha
    have hmem : Part.choice .corimId a ∈ Graph.parts m := by simp [Graph.parts, ha]
    exact (writes_choice (h _ hmem).1.base fun hf => hplain hf _ hmem).mono (by decide)
  have htags : (Wire.list Comid.embedded).Writes f sc.types 12 m.tags :=
    Wire.writes_list fun c hc => Comid.writes_embedded fun p hp =>
      h p (m.sealedParts_subset (sealedParts_tag hc hp))
  have hentities : (Wire.list (Record.wire Entity)).Writes f sc.types 4 m.entities :=
    Wire.writes_list fun e he => Entity.writes (fun p hp => h p (parts_entity he hp))
      fun hf p hp => hplain hf p (parts_entity he hp)
  refine Record.writes_of_fields (by decide)
    ⟨hid, Field.writes_list htags, fun id _ => (writes_profileId id).mono (by decide),
      fun w _ => (w.writes).mono (by decide), Field.writes_list (hentities.mono (by decide))⟩ ?_
  rintro _ ⟨⟩
  exact h (.extensions .corims m.extensions) (by simp [Graph.parts])

end

end Rim
