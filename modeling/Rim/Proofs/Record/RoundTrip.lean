import Rim.Proofs.Record.Readable

/-!
# Every kind of record is read back

* `Comid.returns` and its siblings: what is written of a record is read back as the same data, if
  its parts are carried through the form.
* `UnsignedCorim.profileHint_members`: the entries of a manifest name the profile that the manifest
  names, so that both directions have the same shapes in force.
-/

namespace Rim

attribute [ext] Version Validity Signer Meta

theorem Wire.returns_choice {sc : Scope} (hd : sc.types.Distinct) {family : Family}
    {value : ChoiceValue} (h : value.BuiltIn sc.types family) (f : Form) :
    (Wire.choice family).Returns f sc value := by
  intro v hv _
  obtain ⟨result, hresult, hsame⟩ := Choice.decode_encode hd h hv
  refine ⟨result, ?_, hsame⟩
  show Decoding.ofExcept (Choice.decode sc.types family f v) = _
  rw [hresult]
  rfl

section

variable {f : Form} {sc : Scope}

theorem TagIdentity.returns (hd : sc.types.Distinct) {t : TagIdentity}
    (h : ∀ p ∈ Graph.parts t, p.Restorable f sc) : (Record.wire TagIdentity).Returns f sc t := by
  have htagId : ∀ a, t.tagId = some a → (Wire.choice .tagId).Returns f sc a := fun a ha =>
    Wire.returns_choice hd (h (.choice .tagId a) (by simp [Graph.parts, ha])).1 f
  have hversion : ∀ a, t.tagVersion = some a → Coding.uint.toWire.Returns f sc a := fun a _ =>
    Wire.returns_of_inverse (Coding.inverse_uint f a)
  refine Record.returns_of_kept_fixed rfl rfl
    ⟨Field.reads_option htagId, Field.reads_option hversion⟩ ?_
  rintro y ⟨ktagId, kversion⟩
  -- The comparison of identities goes field by field.
  show (y.tagId == t.tagId && y.tagVersion == t.tagVersion) = true
  rw [ktagId.option_beq (fun _ _ => rfl) htagId, kversion.option_beq (fun _ _ => rfl) hversion]
  rfl

theorem Entity.returns (hd : sc.types.Distinct) {e : Entity}
    (h : ∀ p ∈ Graph.parts e, p.Restorable f sc) : (Record.wire Entity).Returns f sc e := by
  have hname : ∀ a, e.name = some a → (Wire.choice .entityName).Returns f sc a := fun a ha =>
    Wire.returns_choice hd (h (.choice .entityName a) (by simp [Graph.parts, ha])).1 f
  have hregId : ∀ a, e.regId = some a → Coding.taggedUri.toWire.Returns f sc a := fun a _ =>
    Wire.returns_of_inverse (Coding.inverse_taggedUri f a)
  have hroles : Roles.coding.toWire.Returns f sc e.roles :=
    Wire.returns_of_inverse (Roles.inverse_coding f e.roles)
  have hset : (Part.extensions .entities e.extensions).Restorable f sc :=
    h (.extensions .entities e.extensions) (by simp [Graph.parts])
  refine Record.returns_of_kept rfl
    ⟨Field.reads_option hname, Field.reads_option hregId, Field.reads_list hroles⟩ ?_ ?_
  · rintro _ ⟨⟩
    exact hset
  · rintro y ⟨kname, kregId, kroles⟩ hown
    show (y.name == e.name && (y.regId == e.regId && (y.roles == e.roles &&
      y.extensions == e.extensions))) = true
    rw [kname.option_beq (fun _ _ => rfl) hname, kregId.option_beq (fun _ _ => rfl) hregId,
      kroles.list_beq (fun _ _ => rfl) hroles, hown _ rfl]
    rfl

theorem Class.returns (hd : sc.types.Distinct) {c : Class}
    (h : ∀ p ∈ Graph.parts c, p.Restorable f sc) : (Record.wire Class).Returns f sc c := by
  have hclassId : ∀ a, c.classId = some a → (Wire.choice .classId).Returns f sc a := fun a ha =>
    Wire.returns_choice hd (h (.choice .classId a) (by simp [Graph.parts, ha])).1 f
  have htext : ∀ s : String, Coding.text.toWire.Returns f sc s := fun s =>
    Wire.returns_of_inverse (Coding.inverse_text f s)
  have huint : ∀ n : UInt64, Coding.uint.toWire.Returns f sc n := fun n =>
    Wire.returns_of_inverse (Coding.inverse_uint f n)
  have hset : (Part.extensions .classes c.extensions).Restorable f sc :=
    h (.extensions .classes c.extensions) (by simp [Graph.parts])
  refine Record.returns_of_kept rfl
    ⟨Field.reads_option hclassId, Field.reads_option fun s _ => htext s,
      Field.reads_option fun s _ => htext s, Field.reads_option fun n _ => huint n,
      Field.reads_option fun n _ => huint n⟩ ?_ ?_
  · rintro _ ⟨⟩
    exact hset
  · rintro y ⟨kclassId, kvendor, kmodel, klayer, kindex⟩ hown
    show (y.classId == c.classId && (y.vendor == c.vendor && (y.model == c.model &&
      (y.layer == c.layer && (y.index == c.index && y.extensions == c.extensions))))) = true
    rw [kclassId.option_beq (fun _ _ => rfl) hclassId,
      kvendor.option_beq (fun _ _ => rfl) fun s _ => htext s,
      kmodel.option_beq (fun _ _ => rfl) fun s _ => htext s,
      klayer.option_beq (fun _ _ => rfl) fun n _ => huint n,
      kindex.option_beq (fun _ _ => rfl) fun n _ => huint n, hown _ rfl]
    rfl

theorem Environment.returns (hd : sc.types.Distinct) {e : Environment}
    (h : ∀ p ∈ Graph.parts e, p.Restorable f sc) : (Record.wire Environment).Returns f sc e := by
  have hclass : ∀ a, e.class_ = some a → (Record.wire Class).Returns f sc a := fun a ha =>
    Class.returns hd fun p hp => h p (Environment.parts_class ha hp)
  refine Record.returns_of_kept_fixed rfl rfl (Field.reads_option hclass) ?_
  rintro y kclass
  exact kclass.option_beq (fun _ _ => rfl) hclass

theorem Version.returns (v : Version) :
    (Record.wire Version).Returns f sc v := by
  have hvalue : ∀ a, v.value = some a → Coding.text.toWire.Returns f sc a := fun a _ =>
    Wire.returns_of_inverse (Coding.inverse_text f a)
  have hscheme : ∀ a, v.scheme = some a → VersionScheme.coding.toWire.Returns f sc a :=
    fun a _ => Wire.returns_of_inverse (a.inverse_coding f)
  refine Record.returns_of_kept_fixed rfl rfl
    ⟨Field.reads_option hvalue, Field.reads_option hscheme⟩ ?_
  rintro y ⟨kvalue, kscheme⟩
  have hv : y.value = v.value := kvalue.option_eq (fun _ _ => rfl) hvalue
  have hs : y.scheme = v.scheme := kscheme.option_eq (fun _ _ => rfl) hscheme
  rw [Version.ext hv hs]
  exact beq_self_eq_true v

theorem Mval.returns {m : Mval} (h : ∀ p ∈ Graph.parts m, p.Restorable f sc) :
    (Record.wire Mval).Returns f sc m := by
  have hversion : ∀ a, m.version = some a → (Record.wire Version).Returns f sc a := fun a _ =>
    a.returns
  have hsvn : ∀ a, m.svn = some a → Svn.coding.toWire.Returns f sc a := fun a _ =>
    Wire.returns_of_inverse (a.inverse_coding f)
  have hdigests : ∀ a, m.digests = some a → Digests.coding.toWire.Returns f sc a := fun a _ =>
    Wire.returns_of_inverse (a.inverse_coding f)
  have htext : ∀ s : String, Coding.text.toWire.Returns f sc s := fun s =>
    Wire.returns_of_inverse (Coding.inverse_text f s)
  have hset : (Part.extensions .mval m.extensions).Restorable f sc :=
    h (.extensions .mval m.extensions) (by simp [Graph.parts])
  refine Record.returns_of_kept rfl
    ⟨Field.reads_option hversion, Field.reads_option hsvn, Field.reads_option hdigests,
      Field.reads_option fun s _ => htext s, Field.reads_option fun s _ => htext s⟩ ?_ ?_
  · rintro _ ⟨⟩
    exact hset
  · rintro y ⟨kversion, ksvn, kdigests, kserial, kname⟩ hown
    show (y.version == m.version && (y.svn == m.svn && (y.digests == m.digests &&
      (y.serialNumber == m.serialNumber && (y.name == m.name &&
        y.extensions == m.extensions))))) = true
    rw [kversion.option_beq (fun _ _ => rfl) hversion, ksvn.option_beq (fun _ _ => rfl) hsvn,
      kdigests.option_beq (fun _ _ => rfl) hdigests,
      kserial.option_beq (fun _ _ => rfl) fun s _ => htext s,
      kname.option_beq (fun _ _ => rfl) fun s _ => htext s, hown _ rfl]
    rfl

theorem Measurement.returns {m : Measurement} (h : ∀ p ∈ Graph.parts m, p.Restorable f sc) :
    (Record.wire Measurement).Returns f sc m := by
  have hvalue : ∀ a, m.value = some a → (Record.wire Mval).Returns f sc a := fun a ha =>
    Mval.returns fun p hp => h p (Measurement.parts_value ha hp)
  refine Record.returns_of_kept_fixed rfl rfl (Field.reads_option hvalue) ?_
  rintro y kvalue
  exact kvalue.option_beq (fun _ _ => rfl) hvalue

/-! ## Triples -/

namespace ValueTriple

/-- The two parts of a triple are read back. -/
theorem decodeParts_encodeParts (hd : sc.types.Distinct) {t : ValueTriple}
    (h : ∀ p ∈ Graph.parts t, p.Restorable f sc) {e ms : f.Value}
    (hparts : encodeParts f sc.types t = .ok (e, ms)) (he : f.Sized e) (hms : f.Sized ms) :
    ∃ u, decodeParts f sc e ms = ⟨0, .ok u⟩ ∧ (u == t) = true := by
  obtain ⟨hencode, hencodes⟩ := encodeParts_cases hparts
  obtain ⟨environment, henvironment, hsame⟩ := Environment.returns hd
    (fun p hp => h p (t.parts_environment hp)) e hencode he
  have hreturns : ∀ m ∈ t.measurements, (Record.wire Measurement).Returns f sc m := fun m hm =>
    Measurement.returns fun p hp => h p (parts_measurement hm hp)
  obtain ⟨measurements, hmeasurements, hsames⟩ := Wire.returns_list hreturns ms hencodes hms
  refine ⟨⟨environment, measurements⟩, ?_, ?_⟩
  · -- Each part is read under its own field path, which matters to errors only.
    have hfirst : ((Record.wire Environment).decode f sc e).mapError (.field "environment") =
        ⟨0, .ok environment⟩ := Decoding.mapError_eq_ok_iff.2 henvironment
    have hsecond : ((Wire.list (Record.wire Measurement)).decode f sc ms).mapError
        (.field "measurements") = ⟨0, .ok measurements⟩ :=
      Decoding.mapError_eq_ok_iff.2 hmeasurements
    exact Decoding.bind_eq_ok_iff.2 ⟨0, 0, environment, hfirst,
      Decoding.bind_eq_ok_iff.2 ⟨0, 0, measurements, hsecond, rfl, rfl⟩, rfl⟩
  · show (environment == t.environment && measurements == t.measurements) = true
    rw [hsame, hsames]
    rfl

theorem returns (hd : sc.types.Distinct) {t : ValueTriple}
    (h : ∀ p ∈ Graph.parts t, p.Restorable f sc) : wire.Returns f sc t := by
  intro v hv hsize
  cases f with
  | binary =>
    obtain ⟨⟨e, ms⟩, hparts, hv⟩ := Except.bind_eq_ok_iff.1 hv
    obtain rfl := Except.pure_eq_ok_iff.1 hv
    have hsized : ∀ w ∈ [e, ms], Form.Sized .binary w := fun w hw =>
      Form.Sized.of_mem_array hsize hw
    obtain ⟨u, hu, hsame⟩ := decodeParts_encodeParts hd h hparts (hsized e (by simp))
      (hsized ms (by simp))
    exact ⟨u, Decoding.bind_eq_ok_iff.2 ⟨0, 0, (e, ms), rfl, hu, rfl⟩, hsame⟩
  | text =>
    obtain ⟨⟨e, ms⟩, hparts, hv⟩ := Except.bind_eq_ok_iff.1 hv
    obtain rfl := Except.pure_eq_ok_iff.1 hv
    obtain ⟨u, hu, hsame⟩ := decodeParts_encodeParts hd h hparts trivial trivial
    refine ⟨u, Decoding.bind_eq_ok_iff.2 ⟨0, 0, (e, ms), ?_, hu, rfl⟩, hsame⟩
    simp [partsOfJson, Json.expectObject, Json.Members.remove?, Decoding.ofExcept, bind,
      Except.bind, pure, Except.pure]

end ValueTriple

theorem Triples.returns (hd : sc.types.Distinct) {t : Triples}
    (h : ∀ p ∈ Graph.parts t, p.Restorable f sc) : (Record.wire Triples).Returns f sc t := by
  have hreference : listWire.Returns f sc t.referenceValues :=
    Wire.returns_list fun v hv => ValueTriple.returns hd fun p hp =>
      h p (parts_referenceValue hv hp)
  have hendorsed : listWire.Returns f sc t.endorsedValues :=
    Wire.returns_list fun v hv => ValueTriple.returns hd fun p hp =>
      h p (parts_endorsedValue hv hp)
  have hset : (Part.extensions .triples t.extensions).Restorable f sc :=
    h (.extensions .triples t.extensions) (by simp [Graph.parts])
  refine Record.returns_of_kept rfl
    ⟨Field.reads_list hreference, Field.reads_list hendorsed⟩ ?_ ?_
  · rintro _ ⟨⟩
    exact hset
  · rintro y ⟨kreference, kendorsed⟩ hown
    show (y.referenceValues == t.referenceValues && (y.endorsedValues == t.endorsedValues &&
      y.extensions == t.extensions)) = true
    rw [kreference.list_beq (fun _ _ => rfl) hreference,
      kendorsed.list_beq (fun _ _ => rfl) hendorsed, hown _ rfl]
    rfl

/-- Triples that hold nothing are the same data. -/
theorem Triples.beq_of_isEmpty {a b : Triples} (ha : a.isEmpty = true) (hb : b.isEmpty = true) :
    (a == b) = true := by
  simp only [isEmpty, ExtensionSet.isEmpty, Bool.and_eq_true, List.isEmpty_iff] at ha hb
  obtain ⟨⟨harefs, haends⟩, haset⟩ := ha
  obtain ⟨⟨hbrefs, hbends⟩, hbset⟩ := hb
  show (a.referenceValues == b.referenceValues && (a.endorsedValues == b.endorsedValues &&
    ExtensionSet.same a.extensions b.extensions)) = true
  simp [harefs, haends, hbrefs, hbends, ExtensionSet.same, haset, hbset]

theorem Comid.returns (hd : sc.types.Distinct) {c : Comid}
    (h : ∀ p ∈ Graph.parts c, p.Restorable f sc) : (Record.wire Comid).Returns f sc c := by
  have hlanguage : ∀ a, c.language = some a → Coding.text.toWire.Returns f sc a := fun a _ =>
    Wire.returns_of_inverse (Coding.inverse_text f a)
  have hidentity : ∀ a, c.tagIdentity = some a → (Record.wire TagIdentity).Returns f sc a :=
    fun a ha => TagIdentity.returns hd fun p hp => h p (parts_tagIdentity ha hp)
  have hentities : (Wire.list (Record.wire Entity)).Returns f sc c.entities :=
    Wire.returns_list fun e he => Entity.returns hd fun p hp => h p (parts_entity he hp)
  have htriples : (Record.wire Triples).Returns f sc c.triples :=
    Triples.returns hd fun p hp => h p (c.parts_triples hp)
  have hset : (Part.extensions .comids c.extensions).Restorable f sc :=
    h (.extensions .comids c.extensions) (by simp [Graph.parts])
  refine Record.returns_of_kept rfl
    ⟨Field.reads_option hlanguage, Field.reads_option hidentity, Field.reads_list hentities,
      ?_⟩ ?_ ?_
  · refine Field.reads_option fun a ha => ?_
    split at ha
    · cases ha
    · obtain rfl := Option.some.inj ha
      exact htriples
  · rintro _ ⟨⟩
    exact hset
  · rintro y ⟨klanguage, kidentity, kentities, ktriples⟩ hown
    -- Triples that hold nothing are not written, and what is read then holds nothing either.
    have hsame : (y.triples == c.triples) = true := by
      by_cases hempty : c.triples.isEmpty = true
      · refine Triples.beq_of_isEmpty ?_ hempty
        have habsent := ktriples.absent (if_pos hempty)
        by_contra hne
        rw [show Field.get _ y = some y.triples from if_neg hne] at habsent
        cases habsent
      · obtain ⟨b, hb, hy⟩ := ktriples.present c.triples (if_neg hempty)
        rw [← show { y with triples := b } = y from hy]
        exact htriples.beq_of_carries hb
    show (y.language == c.language && (y.tagIdentity == c.tagIdentity &&
      (y.entities == c.entities && (y.triples == c.triples &&
        y.extensions == c.extensions)))) = true
    rw [klanguage.option_beq (fun _ _ => rfl) hlanguage,
      kidentity.option_beq (fun _ _ => rfl) hidentity,
      kentities.list_beq (fun _ _ => rfl) hentities, hsame, hown _ rfl]
    rfl

/-! ## Signatures -/

theorem Validity.returns {w : Validity}
    (h : ∀ p ∈ Graph.parts w, p.Restorable f sc) : (Record.wire Validity).Returns f sc w := by
  have htime : ∀ t, Part.time t ∈ Graph.parts w → Instant.coding.toWire.Returns f sc t := by
    intro t ht
    obtain ⟨hrange, hwhole, hyear⟩ := (h _ ht).1
    refine Wire.returns_of_inverse ?_
    cases f with
    | binary => exact Instant.inverse_binary hrange hwhole
    | text => exact Instant.inverse_text (hyear rfl) hwhole
  have hbefore : ∀ t, w.notBefore = some t → Instant.coding.toWire.Returns f sc t := fun t ht =>
    htime t (by simp [Graph.parts, ht])
  have hafter : ∀ t, w.notAfter = some t → Instant.coding.toWire.Returns f sc t := fun t ht =>
    htime t (by simp [Graph.parts, ht])
  refine Record.returns_of_kept_fixed rfl rfl
    ⟨Field.reads_option hbefore, Field.reads_option hafter⟩ ?_
  rintro y ⟨kbefore, kafter⟩
  have hb : y.notBefore = w.notBefore := kbefore.option_eq (fun _ _ => rfl) hbefore
  have ha : y.notAfter = w.notAfter := kafter.option_eq (fun _ _ => rfl) hafter
  rw [Validity.ext hb ha]
  exact beq_self_eq_true w

theorem Signer.returns (s : Signer) :
    (Record.wire Signer).Returns f sc s := by
  have hname : ∀ a, s.name = some a → Coding.text.toWire.Returns f sc a := fun a _ =>
    Wire.returns_of_inverse (Coding.inverse_text f a)
  have huri : ∀ a, s.uri = some a → Coding.taggedUri.toWire.Returns f sc a := fun a _ =>
    Wire.returns_of_inverse (Coding.inverse_taggedUri f a)
  refine Record.returns_of_kept_fixed rfl rfl
    ⟨Field.reads_option hname, Field.reads_option huri⟩ ?_
  rintro y ⟨kname, kuri⟩
  have hn : y.name = s.name := kname.option_eq (fun _ _ => rfl) hname
  have hu : y.uri = s.uri := kuri.option_eq (fun _ _ => rfl) huri
  rw [Signer.ext hn hu]
  exact beq_self_eq_true s

theorem Meta.returns {m : Meta}
    (h : ∀ p ∈ Graph.parts m, p.Restorable f sc) : (Record.wire Meta).Returns f sc m := by
  have hsigner : ∀ a, m.signer = some a → (Record.wire Signer).Returns f sc a := fun a _ =>
    a.returns
  have hvalidity : ∀ a, m.validity = some a → (Record.wire Validity).Returns f sc a := fun a ha =>
    Validity.returns fun p hp => h p (parts_validity ha hp)
  refine Record.returns_of_kept_fixed rfl rfl
    ⟨Field.reads_option hsigner, Field.reads_option hvalidity⟩ ?_
  rintro y ⟨ksigner, kvalidity⟩
  have hs : y.signer = m.signer := ksigner.option_eq (fun _ _ => rfl) hsigner
  have hv : y.validity = m.validity := kvalidity.option_eq (fun _ _ => rfl) hvalidity
  rw [Meta.ext hs hv]
  exact beq_self_eq_true m

/-! ## Manifests -/

/-- Tags inside a manifest are read back. In the binary form they are octet strings, so their
choices must not be written as numbers. -/
theorem Comid.returns_embedded (hd : sc.types.Distinct) {c : Comid}
    (h : ∀ p ∈ Graph.parts c, p.Restorable f sc)
    (hplain : f = .binary → ∀ p ∈ Graph.parts c, p.Plain sc.types) :
    Comid.embedded.Returns f sc c := by
  intro v hv hsize
  cases f with
  | binary =>
    obtain ⟨w, hw, hv⟩ := Except.bind_eq_ok_iff.1 hv
    obtain rfl := Except.pure_eq_ok_iff.1 hv
    -- The octets inside are fewer than those of the item around them.
    have hwsize : Form.Sized .binary w := by
      have hlength : (Cbor.write (.tag TagNumber.comid (.bytes (Cbor.write w)))).length <
        UInt64.size := hsize
      simp only [Cbor.write, List.length_append] at hlength
      show (Cbor.write w).length < UInt64.size
      omega
    have hreadable : Form.Readable .binary Form.binary.maxDepth w :=
      (Comid.writes h hplain w hw).mono (by decide)
    have hparse : Cbor.parse (Cbor.write w) = .ok w := Form.parse_print hreadable hwsize
    obtain ⟨y, hy, hsame⟩ := Comid.returns hd h w hw hwsize
    refine ⟨y, ?_, hsame⟩
    refine Decoding.bind_eq_ok_iff.2 ⟨0, 0, .bytes (Cbor.write w), rfl, ?_, rfl⟩
    refine Decoding.bind_eq_ok_iff.2 ⟨0, 0, Cbor.write w, rfl, ?_, rfl⟩
    exact Decoding.bind_eq_ok_iff.2
      ⟨0, 0, w, Decoding.ofExcept_eq_ok_iff.2 ⟨rfl, hparse⟩, hy, rfl⟩
  | text =>
    obtain ⟨w, hw, hv⟩ := Except.bind_eq_ok_iff.1 hv
    obtain rfl := Except.pure_eq_ok_iff.1 hv
    obtain ⟨y, hy, hsame⟩ := Comid.returns hd h w hw trivial
    refine ⟨y, ?_, hsame⟩
    exact Decoding.bind_eq_ok_iff.2 ⟨0, 0, ⟨"comid", w⟩,
      Decoding.ofExcept_eq_ok_iff.2 ⟨rfl, Json.Envelope.ofJson_toJson _⟩, hy, rfl⟩

namespace UnsignedCorim

/-- The field of the profile. -/
def profileField : Field UnsignedCorim :=
  .of profileKey.slot profileKey.name ProfileId.coding.toWire (·.profile)
    fun p m => { m with profile := some p }

theorem profileField_mem : profileField ∈ Record.fields (R := UnsignedCorim) :=
  List.mem_cons_of_mem _ (List.mem_cons_of_mem _ List.mem_cons_self)

/-- Among what is written of a manifest only its profile stands under the key of the profile. -/
theorem profile_of_mem_encode {types : TypeTable} {m : UnsignedCorim} {bindings : ExtensionMap}
    (hset : Record.Restorable f bindings m) {fixed extensions : List (FieldKey × f.Value)}
    (hfixed : Record.encodeFields f types m Record.fields = .ok fixed)
    (hextensions : Record.encodeExtensions f m = .ok extensions) {e : FieldKey × f.Value}
    (he : e ∈ fixed ++ extensions) (hkey : f.keyOf e.1 = f.keyOf profileKey) :
    ∃ id, m.profile = some id ∧ ProfileId.coding.encode f id = .ok e.2 := by
  rcases List.mem_append.1 he with he | he
  · obtain ⟨x, hx, hxkey, a, ha, hv⟩ := (Record.mem_encodeFields hfixed).1 he
    rw [← hxkey] at hkey
    obtain rfl : x = profileField := Record.eq_of_keyOf_eq hx profileField_mem hkey
    exact ⟨a, ha, hv⟩
  · rcases Record.encodeExtensions_cases hextensions with ⟨-, rfl⟩ | ⟨h, hhost, hentries⟩
    · exact absurd he List.not_mem_nil
    · obtain ⟨z, hz, hwire, -⟩ :=
        exists_mem_left_of_forall₂ (ExtensionSet.encode_held hentries) e he
      rw [hwire] at hkey
      exact absurd hkey.symm
        ((hset h hhost).2 z hz profileKey (List.mem_map_of_mem profileField_mem))

/-- The entries of a manifest name the profile that the manifest names. -/
theorem profileHint_members {types : TypeTable} {m : UnsignedCorim} {bindings : ExtensionMap}
    (hset : Record.Restorable f bindings m)
    (hprofile : ∀ id, m.profile = some id → ∃ s, ProfileId.parse s = .ok id) {v : f.Value}
    (hv : Record.encode f types m = .ok v) {entries : List (f.RawKey × f.Value)}
    (hentries : f.members v = .ok entries) :
    Record.profileHint UnsignedCorim f entries = m.profile := by
  obtain ⟨fixed, extensions, hfixed, hextensions, rfl⟩ := Record.encode_cases hv
  rw [Form.members_record (hset.nodup_keyOf hfixed hextensions)] at hentries
  obtain rfl := Except.ok.inj hentries
  have honly := fun e he => profile_of_mem_encode hset hfixed hextensions (e := e) he
  -- The hint is the first entry under the key of the profile, and there is only one.
  have hfind : Record.profileHint UnsignedCorim f (f.raw (fixed ++ extensions)) =
      (((fixed ++ extensions).find? fun e => f.keyOf e.1 = f.keyOf profileKey).bind fun e =>
        (ProfileId.coding.decode f e.2).toOption) := by
    show (((fixed ++ extensions).map fun e => (f.rawKey e.1, e.2)).find? _).bind _ = _
    rw [List.find?_map, Option.bind_map]
    simp only [Function.comp_def, Form.readKey_rawKey]
  rw [hfind]
  cases hfound : (fixed ++ extensions).find? (fun e => f.keyOf e.1 = f.keyOf profileKey) with
  | some e =>
    have hkey : f.keyOf e.1 = f.keyOf profileKey := by simpa using List.find?_some hfound
    obtain ⟨id, hid, hencode⟩ := honly e (List.mem_of_find?_eq_some hfound) hkey
    obtain ⟨s, hs⟩ := hprofile id hid
    rw [hid, Option.bind_some, ProfileId.inverse_coding hs f e.2 hencode]
    rfl
  | none =>
    cases hid : m.profile with
    | none => rfl
    | some id =>
      obtain ⟨v, hmem, -⟩ := Record.exists_mem_encodeFields hfixed profileField_mem hid
      exact absurd (List.find?_eq_none.1 hfound _ (List.mem_append_left _ hmem)) (by simp; rfl)

end UnsignedCorim

theorem UnsignedCorim.returns (hd : sc.types.Distinct) {m : UnsignedCorim}
    (h : ∀ p ∈ Graph.parts m, p.Restorable f (sc.scopedTo m.profile))
    (hplain : f = .binary → ∀ p ∈ Graph.sealedParts m, p.Plain sc.types) :
    (Record.wire UnsignedCorim).Returns f sc m := by
  have htypes := sc.types_scopedTo m.profile
  -- Everything inside is read in the scope of the profile.
  generalize hscope : sc.scopedTo m.profile = inner at *
  rw [← htypes] at hd hplain
  have hid : ∀ a, m.id = some a → (Wire.choice .corimId).Returns f inner a := fun a ha =>
    Wire.returns_choice hd (h (.choice .corimId a) (by simp [Graph.parts, ha])).1 f
  have htags : (Wire.list Comid.embedded).Returns f inner m.tags :=
    Wire.returns_list fun c hc => Comid.returns_embedded hd
      (fun p hp => h p (m.sealedParts_subset (sealedParts_tag hc hp)))
      fun hf p hp => hplain hf p (sealedParts_tag hc hp)
  have hparsed : ∀ id, m.profile = some id → ∃ s, ProfileId.parse s = .ok id := fun id hid =>
    (h (.profile id) (by simp [Graph.parts, hid])).1
  have hprofile : ∀ a, m.profile = some a → ProfileId.coding.toWire.Returns f inner a := by
    intro a ha
    obtain ⟨s, hs⟩ := hparsed a ha
    exact Wire.returns_of_inverse (ProfileId.inverse_coding hs f)
  have hvalidity : ∀ a, m.rimValidity = some a → (Record.wire Validity).Returns f inner a :=
    fun a ha => Validity.returns fun p hp => h p (parts_rimValidity ha hp)
  have hentities : (Wire.list (Record.wire Entity)).Returns f inner m.entities :=
    Wire.returns_list fun e he => Entity.returns hd fun p hp => h p (parts_entity he hp)
  have hset : Record.Restorable f inner.bindings m := by
    rintro _ ⟨⟩
    exact h (.extensions .corims m.extensions) (by simp [Graph.parts])
  intro v hv hsize
  have hhint : ∀ entries, f.members v = .ok entries →
      Record.profileHint UnsignedCorim f entries = m.profile := fun _ hentries =>
    profileHint_members hset hparsed hv hentries
  rw [← hscope] at *
  -- Every field is read in the scope that the hint puts in force.
  obtain ⟨y, hy, hkept, hown⟩ := Record.decode_encode hv hsize hhint
    (List.forall_iff_forall_mem.1 ⟨Field.reads_option hid, Field.reads_list htags,
      Field.reads_option hprofile, Field.reads_option hvalidity, Field.reads_list hentities⟩)
    hset
  obtain ⟨kid, ktags, kprofile, kvalidity, kentities⟩ := List.forall_iff_forall_mem.2 hkept
  refine ⟨y, hy, ?_⟩
  show (y.id == m.id && (y.tags == m.tags && (y.profile == m.profile &&
    (y.rimValidity == m.rimValidity && (y.entities == m.entities &&
      y.extensions == m.extensions))))) = true
  rw [kid.option_beq (fun _ _ => rfl) hid, ktags.list_beq (fun _ _ => rfl) htags,
    kprofile.option_beq (fun _ _ => rfl) hprofile,
    kvalidity.option_beq (fun _ _ => rfl) hvalidity,
    kentities.list_beq (fun _ _ => rfl) hentities, hown _ rfl]
  rfl

end

end Rim
