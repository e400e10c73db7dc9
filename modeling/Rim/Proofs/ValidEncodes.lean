import Rim.Proofs.Record.Octets
import Rim.Proofs.Record.Writable
import Rim.Proofs.Validation.Parts

/-!
# Records are encoded exactly when they are valid

* `Choice.writable_text_iff`, `Choice.writable_binary_iff`: when a choice of a built-in type is
  written. The binary form also asks that its payload goes with the discriminator of its variant.
* `TypeTable.OverBase`: the variants of the base schema are there, and what they take is taken.
  Setup keeps it so.
* `TypeTable.OverBase.takes_iff`: payloads then go with discriminators, except for plain strings
  registered as octets.
* `Part.Regular`: what is asked of the parts of a record.
* `encodes_iff_valid`: a record with regular parts is encoded in the text form exactly when it is
  valid, and in the binary form exactly when it is valid and no class identifier in it is a string
  that is registered as octets. An invalid record is refused with its violation in both forms.
* `octet_string_not_encoded`: such a string is the exception.
-/

namespace Rim

open Registry

/-! ## Type choices -/

/-- The payload of a value goes with a discriminator. -/
def Discriminator.Takes : Discriminator → ChoiceValue → Prop
  | .bareText, value => value.isPlain = true
  | .bareBytes, value => value.isPlain = false
  | .tag _, _ => True

namespace ChoiceValue

/-- A valid value of the base schema has a payload in the binary form: a text if it is the plain
string, else octets. -/
theorem exists_toCbor {value : ChoiceValue} (hbase : value.IsBase) (h : value.validate = .ok ()) :
    ∃ payload, value.toCbor = .ok payload ∧ ((∃ s, payload = .text s ∧ value.isPlain = true) ∨
      ∃ bs, payload = .bytes bs ∧ value.isPlain = false) := by
  cases value with
  | text s => exact ⟨_, rfl, .inl ⟨s, rfl, rfl⟩⟩
  | oid dotted =>
    obtain ⟨ber, hber⟩ := toBer_of_validate h
    exact ⟨.bytes ber, by simp [toCbor, hber], .inr ⟨ber, rfl, rfl⟩⟩
  | uuid u => exact ⟨_, rfl, .inr ⟨u.octets, rfl, rfl⟩⟩
  | bytes bs => exact ⟨_, rfl, .inr ⟨bs, rfl, rfl⟩⟩
  | custom variant content => exact hbase.elim

/-- A value of the base schema has a payload in the text form, be it valid or not. -/
theorem exists_toJson {value : ChoiceValue} (hbase : value.IsBase) :
    ∃ payload, value.toJson = .ok payload := by
  cases value with
  | custom variant content => exact hbase.elim
  | _ => exact ⟨_, rfl⟩

end ChoiceValue

namespace Choice

variable {types : TypeTable} {family : Family} {value : ChoiceValue} {v : Variant}

theorem registered_of_byTypeTag? (hv : types.byTypeTag? family value.typeTag = some v) :
    registered types family value = .ok v := by
  rw [registered, hv]

/-- In the text form a registered value of the base schema is written exactly when it is valid. -/
theorem writable_text_iff (hbase : value.IsBase)
    (hv : types.byTypeTag? family value.typeTag = some v) :
    (Wire.choice family).Writable .text types value ↔ value.validate = .ok () := by
  constructor
  · rintro ⟨item, h⟩
    exact (encodeJson_cases h).1
  · intro hvalid
    obtain ⟨payload, hpayload⟩ := ChoiceValue.exists_toJson hbase
    refine ⟨if v.discriminator = .bareText then payload
      else Json.Envelope.toJson ⟨v.typeTag, payload⟩, ?_⟩
    refine Except.bind_eq_ok_iff.2 ⟨(), Except.mapError_eq_ok_iff.2 hvalid, ?_⟩
    refine Except.bind_eq_ok_iff.2 ⟨v, registered_of_byTypeTag? hv, ?_⟩
    refine Except.bind_eq_ok_iff.2 ⟨payload, hpayload, ?_⟩
    split <;> rfl

theorem exists_encodePayload_iff {payload : Cbor} {discriminator : Discriminator}
    (hpayload : (∃ s, payload = .text s ∧ value.isPlain = true) ∨
      ∃ bs, payload = .bytes bs ∧ value.isPlain = false) :
    (∃ item, encodePayload value.typeTag discriminator payload = .ok item) ↔
      discriminator.Takes value := by
  rcases hpayload with ⟨s, rfl, hplain⟩ | ⟨bs, rfl, hplain⟩
  · cases discriminator with
    | bareText => exact iff_of_true ⟨_, rfl⟩ hplain
    | bareBytes =>
      refine iff_of_false (fun ⟨_, h⟩ => ?_) fun h => ?_
      · cases h
      · cases hplain.symm.trans h
    | tag number => exact iff_of_true ⟨_, rfl⟩ trivial
  · cases discriminator with
    | bareText =>
      refine iff_of_false (fun ⟨_, h⟩ => ?_) fun h => ?_
      · cases h
      · cases hplain.symm.trans h
    | bareBytes => exact iff_of_true ⟨_, rfl⟩ hplain
    | tag number => exact iff_of_true ⟨_, rfl⟩ trivial

/-- In the binary form its payload also has to go with the discriminator of its variant. -/
theorem writable_binary_iff (hbase : value.IsBase)
    (hv : types.byTypeTag? family value.typeTag = some v) :
    (Wire.choice family).Writable .binary types value ↔
      value.validate = .ok () ∧ v.discriminator.Takes value := by
  constructor
  · rintro ⟨item, h⟩
    have hvalid : value.validate = .ok () := by
      obtain ⟨_, hvalid, -⟩ := Except.bind_eq_ok_iff.1 h
      exact Except.mapError_eq_ok_iff.1 hvalid
    obtain ⟨w, payload, hw, hpayload, hitem⟩ := encodeCbor_cases h
    obtain rfl : w = v := Option.some.inj (hw.symm.trans hv)
    obtain ⟨_, htoCbor, hkind⟩ := ChoiceValue.exists_toCbor hbase hvalid
    obtain rfl := Except.ok.inj (hpayload.symm.trans htoCbor)
    exact ⟨hvalid, (exists_encodePayload_iff hkind).1 ⟨item, hitem⟩⟩
  · rintro ⟨hvalid, htakes⟩
    obtain ⟨payload, hpayload, hkind⟩ := ChoiceValue.exists_toCbor hbase hvalid
    obtain ⟨item, hitem⟩ := (exists_encodePayload_iff hkind).2 htakes
    refine ⟨item, Except.bind_eq_ok_iff.2 ⟨(), Except.mapError_eq_ok_iff.2 hvalid, ?_⟩⟩
    refine Except.bind_eq_ok_iff.2 ⟨v, registered_of_byTypeTag? hv, ?_⟩
    exact Except.bind_eq_ok_iff.2 ⟨payload, hpayload, hitem⟩

end Choice

/-! ## Variants of the base schema -/

/-- A value is a plain string, which is registered for class identifiers as bare octets. -/
def ChoiceValue.StringAsOctets (types : TypeTable) (family : Family) (value : ChoiceValue) : Prop :=
  family = .classId ∧ value.isPlain = true ∧
    ∃ v, types.byTypeTag? .classId value.typeTag = some v ∧ v.discriminator = .bareBytes

namespace TypeTable

/-- The variants of the base schema are there, and in each family a type tag and a discriminator
have one variant. -/
structure OverBase (types : TypeTable) : Prop where
  distinct : types.Distinct
  subset : builtin ⊆ types

/-- Setup keeps the variants of the base schema. -/
theorem overBase_attempts (setup : List SetupCall) :
    (withBuiltins.attempts setup).types.OverBase where
  distinct := distinct_attempts (.inr rfl) setup
  subset := (withBuiltins.growsTo_attempts setup).types.subset

variable {types : TypeTable} {family : Family} {value : ChoiceValue} {v w : Variant}

/-- A variant of the base schema is found where it was. -/
theorem OverBase.byTypeTag?_builtin (h : types.OverBase) (hv : v ∈ builtin) :
    types.byTypeTag? v.family v.typeTag = some v :=
  h.distinct.byTypeTag?_of_mem (h.subset hv)

/-- The discriminators of the base schema stay taken. -/
theorem OverBase.eq_of_discriminator (h : types.OverBase) (hv : v ∈ builtin) {typeTag : String}
    (hw : types.byTypeTag? v.family typeTag = some w) (heq : w.discriminator = v.discriminator) :
    w = v := by
  have hfound := h.distinct.byDiscriminator?_of_byTypeTag? hw
  rw [heq, h.distinct.byDiscriminator?_of_mem (h.subset hv)] at hfound
  exact (Option.some.inj hfound).symm

/-- A family of the base schema has the plain string as its bare text, or is that of class
identifiers. -/
theorem string_mem_builtin (h : family ∈ builtin.map (·.family)) :
    ⟨family, "string", .bareText, .text⟩ ∈ builtin ∨ family = .classId := by
  revert h
  simp [builtin]
  tauto

/-- In a family of the base schema only plain strings are bare texts. -/
theorem OverBase.isPlain_of_bareText (h : types.OverBase)
    (hfamily : family ∈ builtin.map (·.family)) (hbase : value.IsBase)
    (hv : types.byTypeTag? family value.typeTag = some v)
    (hbare : v.discriminator = .bareText) : value.isPlain = true := by
  rcases string_mem_builtin hfamily with hstring | rfl
  · -- The discriminator is taken by the plain string, which has a type tag of its own.
    obtain rfl := h.eq_of_discriminator hstring hv hbare
    have htag : "string" = value.typeTag := (mem_of_byTypeTag? hv).2.2
    cases value with
    | text s => rfl
    | custom variant content => exact hbase.elim
    | _ => simp [ChoiceValue.typeTag] at htag
  · -- All other types of the base schema are registered for class identifiers, under tags.
    by_contra hplain
    have htagged : ∃ number factory,
        ⟨.classId, value.typeTag, .tag number, factory⟩ ∈ builtin := by
      cases value with
      | text s => exact absurd rfl hplain
      | custom variant content => exact hbase.elim
      | _ => simp [builtin, ChoiceValue.typeTag]
    obtain ⟨number, factory, hmem⟩ := htagged
    obtain rfl := Option.some.inj ((h.byTypeTag?_builtin hmem).symm.trans hv)
    cases hbare

/-- The payload of a value goes with the discriminator of its variant, except for a string that is
registered as octets. -/
theorem OverBase.takes_iff (h : types.OverBase) (hfamily : family ∈ builtin.map (·.family))
    (hbase : value.IsBase) (hv : types.byTypeTag? family value.typeTag = some v) :
    v.discriminator.Takes value ↔ ¬ value.StringAsOctets types family := by
  have hoctets : value.StringAsOctets types family ↔
      family = .classId ∧ value.isPlain = true ∧ v.discriminator = .bareBytes := by
    refine and_congr_right fun hclass => and_congr_right fun _ => ?_
    subst hclass
    simp [hv]
  rw [hoctets]
  cases hdisc : v.discriminator with
  | bareText => simp [Discriminator.Takes, h.isPlain_of_bareText hfamily hbase hv hdisc]
  | bareBytes =>
    have hclass : value.isPlain = true → family = .classId := by
      intro hplain
      refine (string_mem_builtin hfamily).resolve_left fun hstring => ?_
      -- In the other families the type tag stands for the bare text.
      have htag : value.typeTag = "string" := by
        cases value with
        | text s => rfl
        | _ => cases hplain
      rw [htag, h.byTypeTag?_builtin hstring] at hv
      rw [← Option.some.inj hv] at hdisc
      cases hdisc
    cases hplain : value.isPlain with
    | false => simp [Discriminator.Takes, hplain]
    | true => simp [Discriminator.Takes, hplain, hclass hplain]
  | tag number => simp [Discriminator.Takes]

end TypeTable

/-! ## Parts -/

namespace Part

/-- What is asked of a part: choices are of built-in types and registered in their family, extension
values are of library types, and profile identifiers have been parsed. -/
def Regular (types : TypeTable) : Part → Prop
  | .choice family value => value.IsBase ∧ (types.byTypeTag? family value.typeTag).isSome = true
  | .extensions _ set => ∀ e ∈ set.entries, e.2.IsLibrary
  | .time _ => True
  | .profile id => ∃ s, ProfileId.parse s = .ok id

/-- A class identifier that is a string registered as bare octets. -/
def StringAsOctets (types : TypeTable) : Part → Prop
  | .choice family value => value.StringAsOctets types family
  | _ => False

/-- Choices stand in families of the base schema. -/
def InSchema : Part → Prop
  | .choice family _ => family ∈ TypeTable.builtin.map (·.family)
  | _ => True

/-- A valid regular part is written in the text form, and in the binary form too unless it is a
string registered as octets. -/
theorem writable_iff {types : TypeTable} (htypes : types.OverBase) {p : Part}
    (hregular : p.Regular types) (hschema : p.InSchema) (hvalid : p.Valid) (f : Form) :
    p.Writable f types ↔ (f = .binary → ¬ p.StringAsOctets types) := by
  cases p with
  | choice family value =>
    obtain ⟨hbase, hsome⟩ := hregular
    obtain ⟨v, hv⟩ := Option.isSome_iff_exists.1 hsome
    cases f with
    | binary =>
      simp only [writable_choice, Choice.writable_binary_iff hbase hv,
        htypes.takes_iff hschema hbase hv]
      exact ⟨fun h _ => h.2, fun h => ⟨hvalid, h trivial⟩⟩
    | text =>
      simp only [writable_choice, Choice.writable_text_iff hbase hv]
      exact iff_of_true hvalid fun h => by cases h
  | extensions point set =>
    exact iff_of_true (ExtensionSet.exists_encode hregular f) fun _ h => h
  | time t => exact iff_of_true trivial fun _ h => h
  | profile id =>
    obtain ⟨s, hs⟩ := hregular
    exact iff_of_true (ProfileId.exists_encode hs f) fun _ h => h

end Part

/-! ## Families -/

theorem TagIdentity.parts_inSchema (t : TagIdentity) : ∀ p ∈ Graph.parts t, p.InSchema := by
  simp [forall_parts, Part.InSchema, TypeTable.builtin]

theorem Entity.parts_inSchema (e : Entity) : ∀ p ∈ Graph.parts e, p.InSchema := by
  simp [forall_parts, Part.InSchema, TypeTable.builtin]

theorem Class.parts_inSchema (c : Class) : ∀ p ∈ Graph.parts c, p.InSchema := by
  simp [forall_parts, Part.InSchema, TypeTable.builtin]

theorem Environment.parts_inSchema (e : Environment) : ∀ p ∈ Graph.parts e, p.InSchema :=
  (forall_parts e).2 fun c _ => c.parts_inSchema

theorem Mval.parts_inSchema (m : Mval) : ∀ p ∈ Graph.parts m, p.InSchema :=
  (forall_parts m).2 trivial

theorem Measurement.parts_inSchema (m : Measurement) : ∀ p ∈ Graph.parts m, p.InSchema :=
  (forall_parts m).2 fun v _ => v.parts_inSchema

theorem ValueTriple.parts_inSchema (t : ValueTriple) : ∀ p ∈ Graph.parts t, p.InSchema :=
  (forall_parts t).2 ⟨t.environment.parts_inSchema, fun m _ => m.parts_inSchema⟩

theorem Triples.parts_inSchema (t : Triples) : ∀ p ∈ Graph.parts t, p.InSchema :=
  (forall_parts t).2 ⟨fun v _ => v.parts_inSchema, fun v _ => v.parts_inSchema, trivial⟩

theorem Comid.parts_inSchema (c : Comid) : ∀ p ∈ Graph.parts c, p.InSchema :=
  (forall_parts c).2 ⟨fun t _ => t.parts_inSchema, fun e _ => e.parts_inSchema,
    c.triples.parts_inSchema, trivial⟩

theorem Validity.parts_inSchema (w : Validity) : ∀ p ∈ Graph.parts w, p.InSchema :=
  (forall_parts w).2 ⟨fun _ _ => trivial, fun _ _ => trivial⟩

theorem UnsignedCorim.parts_inSchema (m : UnsignedCorim) : ∀ p ∈ Graph.parts m, p.InSchema := by
  refine (forall_parts m).2 ⟨fun _ _ => ?_, fun c _ => c.parts_inSchema, fun _ _ => trivial,
    fun w _ => w.parts_inSchema, fun e _ => e.parts_inSchema, trivial⟩
  simp [Part.InSchema, TypeTable.builtin]

theorem Meta.parts_inSchema (m : Meta) : ∀ p ∈ Graph.parts m, p.InSchema :=
  (forall_parts m).2 fun w _ => w.parts_inSchema

/-- All choices in a record stand in families of the base schema. -/
theorem RecordKind.parts_inSchema (k : RecordKind) (r : k.Carrier) :
    ∀ p ∈ Graph.parts r, p.InSchema := by
  cases k with
  | comid => exact Comid.parts_inSchema r
  | tagIdentity => exact TagIdentity.parts_inSchema r
  | entity => exact Entity.parts_inSchema r
  | triples => exact Triples.parts_inSchema r
  | environment => exact Environment.parts_inSchema r
  | class_ => exact Class.parts_inSchema r
  | measurement => exact Measurement.parts_inSchema r
  | mval => exact Mval.parts_inSchema r
  | unsignedCorim => exact UnsignedCorim.parts_inSchema r
  | meta_ => exact Meta.parts_inSchema r
  | validity => exact Validity.parts_inSchema r
  | version | signer => exact nofun

/-! ## Encoding -/

section

variable {R : Type} [Record R]

/-- A record is encoded exactly when it is valid and can be written. -/
theorem Registry.exists_encode_iff {reg : Registry} {f : Form} {r : R} :
    (∃ bs, (reg.encode f r).1 = .ok bs) ↔
      Record.validate r = .ok () ∧ (Record.wire R).Writable f reg.types r := by
  constructor
  · rintro ⟨bs, h⟩
    obtain ⟨v, hv, -⟩ := Except.map_eq_ok_iff.1 h
    obtain ⟨hvalid, hencode⟩ := Record.encodeValid_cases hv
    exact ⟨hvalid, v, hencode⟩
  · rintro ⟨hvalid, v, hv⟩
    refine ⟨f.print v, Except.map_eq_ok_iff.2 ⟨v, Except.mapError_eq_ok_iff.2 ?_, rfl⟩⟩
    exact Except.bind_eq_ok_iff.2 ⟨(), Except.mapError_eq_ok_iff.2 hvalid, hv⟩

end

/-- After any setup a record with regular parts is encoded in the text form exactly when it is
valid, and in the binary form exactly when it is valid and no class identifier in it is a string
that is registered as bare octets. An invalid record is refused with its violation in both forms. -/
theorem encodes_iff_valid {reg : Registry} {setup : List SetupCall}
    (hreg : withBuiltins.attempts setup = reg) (k : RecordKind) (x : k.Carrier)
    (hx : ∀ p ∈ Graph.parts x, p.Regular reg.types) :
    ((∃ bs, (reg.encode .text x).1 = .ok bs) ↔ Record.validate x = .ok ()) ∧
    ((∃ bs, (reg.encode .binary x).1 = .ok bs) ↔
      Record.validate x = .ok () ∧ ∀ p ∈ Graph.parts x, ¬ p.StringAsOctets reg.types) ∧
    ∀ e, Record.validate x = .error e →
      ∀ f, (reg.encode f x).1 = .error (.record (Record.name k.Carrier) (.invalid e)) := by
  have htypes : reg.types.OverBase := hreg ▸ TypeTable.overBase_attempts setup
  -- What a valid record still asks for to be written is asked of its parts, and they are valid too.
  have hwritable (f : Form) (hvalid : Record.validate x = .ok ()) :
      (Record.wire k.Carrier).Writable f reg.types x ↔
        ∀ p ∈ Graph.parts x, f = .binary → ¬ p.StringAsOctets reg.types := by
    rw [k.writable_iff]
    exact forall₂_congr fun p hp =>
      Part.writable_iff htypes (hx p hp) (k.parts_inSchema x p hp) (k.valid_parts hvalid p hp) f
  refine ⟨?_, ?_, fun e he f => reg.encode_of_invalid f he⟩
  · rw [Registry.exists_encode_iff]
    refine and_iff_left_of_imp fun hvalid => (hwritable .text hvalid).2 ?_
    exact fun p _ h => nomatch h
  · rw [Registry.exists_encode_iff]
    refine and_congr_right fun hvalid => (hwritable .binary hvalid).trans ?_
    exact forall₂_congr fun p _ => forall_prop_of_true rfl

/-- The manifest with a note but without an identifier. -/
def namelessManifest : UnsignedCorim := { noteManifest with id := none }

/-- The manifest with a note is valid and is encoded in both forms. Without its identifier it is
refused in both, for the same violation. -/
theorem encodes_iff_valid_note :
    withBuiltins.attempts noteProfileSetup = noteRegistry ∧
    (∀ p ∈ Graph.parts noteManifest, p.Regular noteRegistry.types) ∧
    (∀ p ∈ Graph.parts namelessManifest, p.Regular noteRegistry.types) ∧
    (∀ f, ∃ bs, (noteRegistry.encode f noteManifest).1 = .ok bs) ∧
    ∀ f, (noteRegistry.encode f namelessManifest).1 =
      .error (.record "unsigned corim" (.invalid (.missing "corim-id"))) := by
  have hregular : ∀ p ∈ Graph.parts noteManifest, p.Regular noteRegistry.types := by
    refine List.forall_iff_forall_mem.1 ?_
    exact ⟨⟨trivial, rfl⟩, ⟨trivial, rfl⟩, ⟨trivial, rfl⟩, nofun, ⟨trivial, rfl⟩, nofun, nofun,
      nofun, nofun, ⟨"urn:note", rfl⟩, List.forall_mem_singleton.2 trivial⟩
  have hnameless : ∀ p ∈ Graph.parts namelessManifest, p.Regular noteRegistry.types :=
    fun p hp => hregular p (List.mem_cons_of_mem _ hp)
  have hstrings : ∀ p ∈ Graph.parts noteManifest, ¬ p.StringAsOctets noteRegistry.types := by
    have hfamily : ∀ family value, family ≠ .classId →
        ¬ (Part.choice family value).StringAsOctets noteRegistry.types :=
      fun _ _ hne h => hne h.1
    have hbytes : ¬ (Part.choice .classId (.bytes [1, 2])).StringAsOctets noteRegistry.types :=
      fun h => nomatch h.2.1
    refine List.forall_iff_forall_mem.1 ?_
    exact ⟨hfamily _ _ (by decide), hfamily _ _ (by decide), hfamily _ _ (by decide), id, hbytes,
      id, id, id, id, id, id⟩
  obtain ⟨htext, hbinary, -⟩ :=
    encodes_iff_valid attempts_noteProfileSetup .unsignedCorim noteManifest hregular
  obtain ⟨-, -, hrefused⟩ :=
    encodes_iff_valid attempts_noteProfileSetup .unsignedCorim namelessManifest hnameless
  refine ⟨attempts_noteProfileSetup, hregular, hnameless, fun f => ?_, hrefused _ rfl⟩
  cases f with
  | binary => exact hbinary.2 ⟨rfl, hstrings⟩
  | text => exact htext.2 rfl

/-! ## Strings registered as octets -/

/-- Plain strings as identifiers of classes, under bare octets. -/
def octetStringSetup : List SetupCall := [.registerType .classId .bareBytes .text]

/-- What the setup makes of the base registry. -/
def octetStringRegistry : Registry where
  types := TypeTable.builtin ++ [⟨.classId, "string", .bareBytes, .text⟩]

/-- A class with a plain string as its identifier. -/
def namedClass : Class := { classId := some (.text "x") }

/-- The class is valid and is encoded in the text form, but not in the binary form. -/
theorem octet_string_not_encoded :
    withBuiltins.attempts octetStringSetup = octetStringRegistry ∧
    (∀ p ∈ Graph.parts namedClass, p.Regular octetStringRegistry.types) ∧
    Record.validate namedClass = .ok () ∧
    (∃ bs, (octetStringRegistry.encode .text namedClass).1 = .ok bs) ∧
    (octetStringRegistry.encode .binary namedClass).1 = .error (.record "class"
      (.value "string payload does not match discriminator bare bytes")) := by
  refine ⟨rfl, ?_, rfl, ⟨_, rfl⟩, rfl⟩
  exact (Class.forall_parts _).2 ⟨fun value h => by cases h; exact ⟨trivial, rfl⟩, nofun⟩

end Rim
