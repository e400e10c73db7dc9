import Rim.Proofs.Cbor.RoundTrip
import Rim.Proofs.Json.RoundTrip
import Rim.Proofs.Keyed
import Rim.Proofs.Oid
import Rim.Proofs.Outcome
import Rim.Proofs.Text.Base64
import Rim.Proofs.Text.Uuid
import Rim.Choice.Wire

/-!
# Type choices are read back

* `TypeTable.Distinct`: in each family a type tag and a discriminator have one variant.
* `ChoiceValue.setCbor_toCbor`, `ChoiceValue.setJson_toJson`: a zero value of the same type takes
  over the payload of a value.
* `Variant.Restores`: what the zero value of a variant makes of the payload of a value.
* `Choice.routeJson`: the variant that reads a text item, and the payload that it is given.
* `Choice.decodeCbor_of_restores`, `Choice.decodeJson_of_restores`: a written value is read as what
  its variant restores.
* `ChoiceValue.BuiltIn`: a value of the base schema, in a family whose variant builds such values.
* `Choice.decode_encode`: such a value is read back from both forms as the same data.
-/

namespace Rim

/-! ## Tables -/

namespace TypeTable

/-- In each family a type tag and a discriminator have one variant. -/
structure Distinct (types : TypeTable) : Prop where
  typeTags : (types.map fun v => (v.family, v.typeTag)).Nodup
  discriminators : (types.map fun v => (v.family, v.discriminator)).Nodup

theorem distinct_builtin : builtin.Distinct := ⟨by decide, by decide⟩

theorem mem_of_byTypeTag? {types : TypeTable} {family : Family} {typeTag : String} {v : Variant}
    (h : types.byTypeTag? family typeTag = some v) :
    v ∈ types ∧ v.family = family ∧ v.typeTag = typeTag :=
  ⟨List.mem_of_find?_eq_some h, by simpa using List.find?_some h⟩

theorem Distinct.byTypeTag?_of_mem {types : TypeTable} (hd : types.Distinct) {v : Variant}
    (hv : v ∈ types) : types.byTypeTag? v.family v.typeTag = some v := by
  have hfind := find?_of_nodup_map hd.typeTags hv
  simpa [byTypeTag?, Prod.ext_iff] using hfind

theorem Distinct.byDiscriminator?_of_mem {types : TypeTable} (hd : types.Distinct) {v : Variant}
    (hv : v ∈ types) : types.byDiscriminator? v.family v.discriminator = some v := by
  have hfind := find?_of_nodup_map hd.discriminators hv
  simpa [byDiscriminator?, Prod.ext_iff] using hfind

/-- A variant that is found by its type tag is found by its discriminator. -/
theorem Distinct.byDiscriminator?_of_byTypeTag? {types : TypeTable} (hd : types.Distinct)
    {family : Family} {typeTag : String} {v : Variant}
    (h : types.byTypeTag? family typeTag = some v) :
    types.byDiscriminator? family v.discriminator = some v := by
  obtain ⟨hv, rfl, -⟩ := mem_of_byTypeTag? h
  exact hd.byDiscriminator?_of_mem hv

end TypeTable

/-! ## Payloads -/

namespace ChoiceValue

/-- The payload in a form. -/
def payload : (f : Form) → ChoiceValue → Except EncodingError f.Value
  | .binary, value => value.toCbor
  | .text, value => value.toJson

/-- The value of the same variant with the given payload. -/
def setPayload : (f : Form) → ChoiceValue → f.Value → Except DecodeError ChoiceValue
  | .binary, value, payload => value.setCbor payload
  | .text, value, payload => value.setJson payload

/-- A value of a type of the base schema. -/
def IsBase : ChoiceValue → Prop
  | .custom _ _ => False
  | _ => True

theorem same_of_toCbor {a b : ChoiceValue} {payload : Cbor} (htag : a.typeTag = b.typeTag)
    (ha : a.toCbor = .ok payload) (hb : b.toCbor = .ok payload)
    (hagrees : payload.agrees payload = true) : (a == b) = true := by
  show (a.typeTag == b.typeTag && _) = true
  simp [htag, ha, hb, hagrees]

/-- Two values of the base schema with one type tag are of one type. -/
theorem cases_of_typeTag_eq {a b : ChoiceValue} (ha : a.IsBase) (hb : b.IsBase)
    (htag : a.typeTag = b.typeTag) :
    (∃ s t, a = .text s ∧ b = .text t) ∨ (∃ s t, a = .oid s ∧ b = .oid t) ∨
      (∃ u v, a = .uuid u ∧ b = .uuid v) ∨ (∃ s t, a = .bytes s ∧ b = .bytes t) := by
  cases a <;> cases b <;> simp_all [IsBase, typeTag]

/-- A zero value of the same type takes over the binary payload of a value. -/
theorem setCbor_toCbor {zero value : ChoiceValue} {payload : Cbor} (hzero : zero.IsBase)
    (hvalue : value.IsBase) (htag : zero.typeTag = value.typeTag)
    (h : value.toCbor = .ok payload) :
    ∃ result, zero.setCbor payload = .ok result ∧ (result == value) = true := by
  rcases cases_of_typeTag_eq hzero hvalue htag with
    ⟨_, s, rfl, rfl⟩ | ⟨_, dotted, rfl, rfl⟩ | ⟨_, u, rfl, rfl⟩ | ⟨_, bs, rfl, rfl⟩
  · obtain rfl : Cbor.text s = payload := by simpa [toCbor] using h
    exact ⟨.text s, rfl, same_of_toCbor rfl h h (by simp [Cbor.agrees])⟩
  · cases hber : Oid.toBer dotted with
    | error e => simp [toCbor, hber] at h
    | ok ber =>
      obtain ⟨spelling, hread, hwrite⟩ := Oid.ofBer_of_toBer hber
      obtain rfl : Cbor.bytes ber = payload := by simpa [toCbor, hber] using h
      refine ⟨.oid spelling, ?_, same_of_toCbor rfl ?_ h (by simp [Cbor.agrees])⟩
      · simp [setCbor, Cbor.expectBytes, hread, bind, Except.bind, pure, Except.pure]
      · simp [toCbor, hwrite]
  · obtain rfl : Cbor.bytes u.octets = payload := by simpa [toCbor] using h
    have hread : Uuid.ofBytes u.octets = .ok u := by simp [Uuid.ofBytes, u.length_octets]
    refine ⟨.uuid u, ?_, same_of_toCbor rfl h h (by simp [Cbor.agrees])⟩
    simp [setCbor, Cbor.expectBytes, hread, bind, Except.bind, pure, Except.pure]
  · obtain rfl : Cbor.bytes bs = payload := by simpa [toCbor] using h
    exact ⟨.bytes bs, rfl, same_of_toCbor rfl h h (by simp [Cbor.agrees])⟩

theorem toBer_of_validate {dotted : String} (h : (ChoiceValue.oid dotted).validate = .ok ()) :
    ∃ ber, Oid.toBer dotted = .ok ber := by
  simp only [validate] at h
  split at h
  · cases h
  · cases hber : Oid.toBer dotted with
    | error e => simp [hber] at h
    | ok ber => exact ⟨ber, rfl⟩

theorem validate_oid_of_toBer {dotted : String} {ber : Bytes} (h : Oid.toBer dotted = .ok ber) :
    (ChoiceValue.oid dotted).validate = .ok () := by
  have hne : dotted ≠ "" := by
    rintro rfl
    have hempty : Oid.toBer "" = .error (.badArc "") := by rfl
    rw [hempty] at h
    cases h
  simp [validate, hne, h]

/-- A zero value of the same type takes over the text payload of a valid value. -/
theorem setJson_toJson {zero value : ChoiceValue} {payload : Json} (hzero : zero.IsBase)
    (hvalue : value.IsBase) (htag : zero.typeTag = value.typeTag)
    (hvalid : value.validate = .ok ()) (h : value.toJson = .ok payload) :
    ∃ result, zero.setJson payload = .ok result ∧ result.validate = .ok () ∧
      (result == value) = true := by
  rcases cases_of_typeTag_eq hzero hvalue htag with
    ⟨_, s, rfl, rfl⟩ | ⟨_, dotted, rfl, rfl⟩ | ⟨_, u, rfl, rfl⟩ | ⟨_, bs, rfl, rfl⟩
  · obtain rfl : Json.string s = payload := by simpa [toJson] using h
    exact ⟨.text s, rfl, hvalid, same_of_toCbor rfl rfl rfl (by simp [Cbor.agrees])⟩
  · -- What is read is the canonical spelling, which need not be the text that was written.
    obtain rfl : Json.string dotted = payload := by simpa [toJson] using h
    obtain ⟨ber, hber⟩ := toBer_of_validate hvalid
    obtain ⟨spelling, hcanon, hwrite⟩ := Oid.canonical_of_toBer hber
    have hvalue : (oid dotted).toCbor = .ok (.bytes ber) := by simp [toCbor, hber]
    have hresult : (oid spelling).toCbor = .ok (.bytes ber) := by simp [toCbor, hwrite]
    refine ⟨.oid spelling, ?_, validate_oid_of_toBer hwrite,
      same_of_toCbor rfl hresult hvalue (by simp [Cbor.agrees])⟩
    simp [setJson, Json.expectString, hcanon, bind, Except.bind, pure, Except.pure]
  · obtain rfl : Json.string u.toString = payload := by simpa [toJson] using h
    refine ⟨.uuid u, ?_, hvalid, same_of_toCbor rfl rfl rfl (by simp [Cbor.agrees])⟩
    simp [setJson, Json.expectString, Uuid.parse_toString, bind, Except.bind, pure, Except.pure]
  · obtain rfl : Json.string (Base64.encode bs) = payload := by simpa [toJson] using h
    refine ⟨.bytes bs, ?_, hvalid, same_of_toCbor rfl rfl rfl (by simp [Cbor.agrees])⟩
    simp [setJson, Json.expectString, Coding.readBase64, Base64.decode_encode, bind,
      Except.bind, pure, Except.pure]

/-- The text payload of a value of the base schema is a string. -/
theorem toJson_eq_string {value : ChoiceValue} {payload : Json} (hvalue : value.IsBase)
    (h : value.toJson = .ok payload) : ∃ s, payload = .string s := by
  cases value with
  | custom variant content => exact hvalue.elim
  | text s => exact ⟨s, (Except.ok.inj h).symm⟩
  | oid dotted => exact ⟨dotted, (Except.ok.inj h).symm⟩
  | uuid u => exact ⟨u.toString, (Except.ok.inj h).symm⟩
  | bytes bs => exact ⟨Base64.encode bs, (Except.ok.inj h).symm⟩

end ChoiceValue

/-- The zero value of a variant takes over the payload of a value, which makes it `result`. A
variant with a lawful payload makes it the value again. -/
def Variant.Restores (v : Variant) (f : Form) (value result : ChoiceValue) : Prop :=
  ∃ zero payload, v.factory.build none = .ok zero ∧ value.payload f = .ok payload ∧
    zero.setPayload f payload = .ok result

/-! ## Values of built-in variants -/

/-- A variant whose zero value is of a type of the base schema. -/
def Variant.IsBase (v : Variant) : Prop :=
  ∃ zero, v.factory.build none = .ok zero ∧ zero.IsBase ∧ zero.typeTag = v.typeTag

theorem Variant.isBase_of_mem_builtin {v : Variant} (h : v ∈ TypeTable.builtin) : v.IsBase := by
  simp only [TypeTable.builtin, List.mem_cons, List.not_mem_nil, or_false] at h
  rcases h with rfl | rfl | rfl | rfl | rfl | rfl | rfl | rfl
  all_goals exact ⟨_, rfl, trivial, rfl⟩

/-- A value of the base schema, in a family where its type tag stands for the library's type. -/
structure ChoiceValue.BuiltIn (types : TypeTable) (family : Family) (value : ChoiceValue) :
    Prop where
  base : value.IsBase
  variant : ∀ v, types.byTypeTag? family value.typeTag = some v → v.IsBase

namespace Choice

/-- What a value that is written has: a valid content, a variant, and a payload that goes with the
variant's discriminator. -/
theorem encodeCbor_cases {types : TypeTable} {family : Family} {value : ChoiceValue} {item : Cbor}
    (h : encodeCbor types family value = .ok item) :
    ∃ v payload, types.byTypeTag? family value.typeTag = some v ∧ value.toCbor = .ok payload ∧
      encodePayload value.typeTag v.discriminator payload = .ok item := by
  obtain ⟨_, -, h⟩ := Except.bind_eq_ok_iff.1 h
  obtain ⟨v, hv, h⟩ := Except.bind_eq_ok_iff.1 h
  obtain ⟨payload, hpayload, hitem⟩ := Except.bind_eq_ok_iff.1 h
  refine ⟨v, payload, ?_, hpayload, hitem⟩
  unfold registered at hv
  split at hv
  next hfound => rw [hfound, Except.ok.inj hv]
  next => cases hv

theorem encodeJson_cases {types : TypeTable} {family : Family} {value : ChoiceValue} {item : Json}
    (h : encodeJson types family value = .ok item) :
    value.validate = .ok () ∧ ∃ v payload, types.byTypeTag? family value.typeTag = some v ∧
      value.toJson = .ok payload ∧
      item = if v.discriminator = .bareText then payload
        else Json.Envelope.toJson ⟨v.typeTag, payload⟩ := by
  obtain ⟨_, hvalid, h⟩ := Except.bind_eq_ok_iff.1 h
  obtain ⟨v, hv, h⟩ := Except.bind_eq_ok_iff.1 h
  obtain ⟨payload, hpayload, hitem⟩ := Except.bind_eq_ok_iff.1 h
  refine ⟨Except.mapError_eq_ok_iff.1 hvalid, v, payload, ?_, hpayload, ?_⟩
  · unfold registered at hv
    split at hv
    next hfound => rw [hfound, Except.ok.inj hv]
    next => cases hv
  · split at hitem
    next hbare =>
      rw [if_pos hbare]
      exact (Except.ok.inj hitem).symm
    next hbare =>
      rw [if_neg hbare]
      exact (Except.ok.inj hitem).symm

/-- A bare payload is written as it is, any other under its tag. -/
theorem encodePayload_cases {typeTag : String} {discriminator : Discriminator}
    {payload item : Cbor} (h : encodePayload typeTag discriminator payload = .ok item) :
    (∃ s, discriminator = .bareText ∧ payload = .text s ∧ item = .text s) ∨
    (∃ bs, discriminator = .bareBytes ∧ payload = .bytes bs ∧ item = .bytes bs) ∨
    (∃ number, discriminator = .tag number ∧ item = .tag number payload) := by
  cases discriminator with
  | bareText =>
    cases payload with
    | text s => exact Or.inl ⟨s, rfl, rfl, (Except.ok.inj h).symm⟩
    | _ => cases h
  | bareBytes =>
    cases payload with
    | bytes bs => exact Or.inr (Or.inl ⟨bs, rfl, rfl, (Except.ok.inj h).symm⟩)
    | _ => cases h
  | tag number => exact Or.inr (Or.inr ⟨number, rfl, (Except.ok.inj h).symm⟩)

/-- The item of a payload shows its discriminator. -/
theorem discriminate_of_encodePayload {typeTag : String} {discriminator : Discriminator}
    {payload item : Cbor} (h : encodePayload typeTag discriminator payload = .ok item) :
    discriminate item = .ok (discriminator, payload) := by
  rcases encodePayload_cases h with ⟨s, rfl, rfl, rfl⟩ | ⟨bs, rfl, rfl, rfl⟩ | ⟨number, rfl, rfl⟩
  · rfl
  · rfl
  · rfl

theorem fill_of_build {v : Variant} {zero result : ChoiceValue}
    {set : ChoiceValue → Except DecodeError ChoiceValue} (hbuild : v.factory.build none = .ok zero)
    (hset : set zero = .ok result) : fill v set = .ok result := by
  simp [fill, hbuild, hset, bind, Except.bind]

theorem variantOf_of_byTypeTag? {types : TypeTable} (hd : types.Distinct) {family : Family}
    {typeTag : String} {v : Variant} (h : types.byTypeTag? family typeTag = some v) :
    variantOf types family v.discriminator = .ok v := by
  simp [variantOf, hd.byDiscriminator?_of_byTypeTag? h]

/-! ### The binary form -/

/-- What is read is what the variant of the item's discriminator makes of its payload. -/
theorem decodeCbor_cases {types : TypeTable} {family : Family} {item : Cbor} {value : ChoiceValue}
    (h : decodeCbor types family item = .ok value) :
    ∃ discriminator payload v zero, discriminate item = .ok (discriminator, payload) ∧
      types.byDiscriminator? family discriminator = some v ∧ v.factory.build none = .ok zero ∧
      zero.setCbor payload = .ok value := by
  obtain ⟨⟨discriminator, payload⟩, hitem, h⟩ := Except.bind_eq_ok_iff.1 h
  obtain ⟨v, hv, h⟩ := Except.bind_eq_ok_iff.1 h
  obtain ⟨zero, hbuild, hset⟩ := Except.bind_eq_ok_iff.1 h
  refine ⟨discriminator, payload, v, zero, hitem, ?_, Except.mapError_eq_ok_iff.1 hbuild,
    Except.mapError_eq_ok_iff.1 hset⟩
  unfold variantOf at hv
  split at hv
  next hfound => rw [hfound, Except.ok.inj hv]
  next => cases hv

/-- A written value is read as what its variant restores: its discriminator leads to the variant
under whose type tag it was written. -/
theorem decodeCbor_of_restores {types : TypeTable} (hd : types.Distinct) {family : Family}
    {value result : ChoiceValue} {v : Variant} (hv : types.byTypeTag? family value.typeTag = some v)
    (hrestores : v.Restores .binary value result) {item : Cbor}
    (h : encodeCbor types family value = .ok item) :
    decodeCbor types family item = .ok result := by
  obtain ⟨v', payload, hv', hpayload, hitem⟩ := encodeCbor_cases h
  obtain ⟨zero, payload', hbuild, hpayload', hset⟩ := hrestores
  obtain rfl := Option.some.inj (hv.symm.trans hv')
  obtain rfl := Except.ok.inj (hpayload.symm.trans hpayload')
  refine Except.bind_eq_ok_iff.2 ⟨_, discriminate_of_encodePayload hitem, ?_⟩
  refine Except.bind_eq_ok_iff.2 ⟨_, variantOf_of_byTypeTag? hd hv, ?_⟩
  exact fill_of_build hbuild hset

/-- A built-in value is read back from the binary form. -/
theorem decodeCbor_encodeCbor {types : TypeTable} (hd : types.Distinct) {family : Family}
    {value : ChoiceValue} (hvalue : value.BuiltIn types family) {item : Cbor}
    (h : encodeCbor types family value = .ok item) :
    ∃ result, decodeCbor types family item = .ok result ∧ (result == value) = true := by
  obtain ⟨v, payload, hv, hpayload, -⟩ := encodeCbor_cases h
  -- The reader starts from the zero value of the variant, not from the value that was written.
  obtain ⟨zero, hbuild, hzero, htag⟩ := hvalue.variant v hv
  have hvtag : v.typeTag = value.typeTag := (TypeTable.mem_of_byTypeTag? hv).2.2
  obtain ⟨result, hset, hsame⟩ :=
    ChoiceValue.setCbor_toCbor hzero hvalue.base (htag.trans hvtag) hpayload
  exact ⟨result, decodeCbor_of_restores hd hv ⟨zero, payload, hbuild, hpayload, hset⟩ h, hsame⟩

/-! ### The text form -/

/-- The variant that reads a text item, and the payload that it is given: a string goes to the
bare-text variant as it is, and of anything else the type tag of its envelope decides. -/
def routeJson (types : TypeTable) (family : Family) : Json → Except DecodeError (Variant × Json)
  | .string s => do return (← variantOf types family .bareText, .string s)
  | item => do
    let e ← Json.Envelope.ofJson item
    match types.byTypeTag? family e.typeTag with
    | none => .error (.unknownVariant family e.typeTag)
    | some v => .ok (v, e.value)

/-- An item without a route is refused for that reason. -/
theorem decodeJson_of_route_error {types : TypeTable} {family : Family} {item : Json}
    {e : DecodeError} (h : routeJson types family item = .error e) :
    decodeJson types family item = .error e := by
  cases item with
  | string s =>
    rcases Except.bind_eq_error_iff.1 h with hvariant | ⟨v, -, hv⟩
    · exact Except.bind_eq_error_iff.2 (.inl hvariant)
    · cases hv
  | _ =>
    rcases Except.bind_eq_error_iff.1 h with hread | ⟨envelope, hread, hroute⟩
    · exact Except.bind_eq_error_iff.2 (.inl hread)
    · refine Except.bind_eq_error_iff.2 (.inr ⟨envelope, hread, ?_⟩)
      split at hroute
      next hfree =>
        obtain rfl := Except.error.inj hroute
        simp [decodeEnvelope, hfree, throw, throwThe, MonadExceptOf.throw]
      next => cases hroute

/-- An item is read as what the variant at the end of its route makes of the payload, if that is
valid. -/
theorem decodeJson_of_route {types : TypeTable} {family : Family} {item payload : Json}
    {v : Variant} {zero result : ChoiceValue}
    (h : routeJson types family item = .ok (v, payload))
    (hbuild : v.factory.build none = .ok zero) (hset : zero.setJson payload = .ok result)
    (hvalid : result.validate = .ok ()) : decodeJson types family item = .ok result := by
  have hfill : fill v (·.setJson payload) = .ok result := fill_of_build hbuild hset
  cases item with
  | string s =>
    obtain ⟨v', hvariant, hroute⟩ := Except.bind_eq_ok_iff.1 h
    obtain ⟨rfl, rfl⟩ := Prod.mk.inj (Except.ok.inj hroute)
    exact Except.bind_eq_ok_iff.2 ⟨v', hvariant, hfill⟩
  | _ =>
    obtain ⟨e, he, hroute⟩ := Except.bind_eq_ok_iff.1 h
    refine Except.bind_eq_ok_iff.2 ⟨e, he, ?_⟩
    split at hroute
    · cases hroute
    next v' hfound =>
      obtain ⟨rfl, rfl⟩ := Prod.mk.inj (Except.ok.inj hroute)
      simp [decodeEnvelope, hfound, hfill, hvalid, bind, Except.bind, pure, Except.pure]

/-- A written value is routed back to its variant, if its payload is a string or goes into an
envelope. -/
theorem routeJson_of_encodeJson {types : TypeTable} (hd : types.Distinct) {family : Family}
    {value : ChoiceValue} {v : Variant} (hv : types.byTypeTag? family value.typeTag = some v)
    {payload item : Json} (hpayload : value.toJson = .ok payload)
    (hbare : v.discriminator = .bareText → ∃ s, payload = .string s)
    (h : encodeJson types family value = .ok item) :
    routeJson types family item = .ok (v, payload) := by
  obtain ⟨-, v', payload', hv', hpayload', rfl⟩ := encodeJson_cases h
  obtain rfl := Option.some.inj (hv.symm.trans hv')
  obtain rfl := Except.ok.inj (hpayload.symm.trans hpayload')
  split
  next hdisc =>
    -- A bare string selects the one variant with that discriminator.
    obtain ⟨s, rfl⟩ := hbare hdisc
    have hvariant := variantOf_of_byTypeTag? hd hv
    rw [hdisc] at hvariant
    exact Except.bind_eq_ok_iff.2 ⟨v, hvariant, rfl⟩
  next hdisc =>
    have hfound : types.byTypeTag? family v.typeTag = some v := by
      rw [(TypeTable.mem_of_byTypeTag? hv).2.2, hv]
    refine Except.bind_eq_ok_iff.2 ⟨_, Json.Envelope.ofJson_toJson _, ?_⟩
    simp [hfound]

/-- A written value is read as what its variant restores, if its payload is a string or goes into an
envelope. -/
theorem decodeJson_of_restores {types : TypeTable} (hd : types.Distinct) {family : Family}
    {value result : ChoiceValue} {v : Variant} (hv : types.byTypeTag? family value.typeTag = some v)
    {payload item : Json} (hpayload : value.toJson = .ok payload)
    (hbare : v.discriminator = .bareText → ∃ s, payload = .string s)
    (hrestores : v.Restores .text value result) (hvalid : result.validate = .ok ())
    (h : encodeJson types family value = .ok item) :
    decodeJson types family item = .ok result := by
  obtain ⟨zero, payload', hbuild, hpayload', hset⟩ := hrestores
  obtain rfl := Except.ok.inj (hpayload.symm.trans hpayload')
  exact decodeJson_of_route (routeJson_of_encodeJson hd hv hpayload hbare h) hbuild hset hvalid

/-- A built-in value is read back from the text form. -/
theorem decodeJson_encodeJson {types : TypeTable} (hd : types.Distinct) {family : Family}
    {value : ChoiceValue} (hvalue : value.BuiltIn types family) {item : Json}
    (h : encodeJson types family value = .ok item) :
    ∃ result, decodeJson types family item = .ok result ∧ (result == value) = true := by
  obtain ⟨hvalid, v, payload, hv, hpayload, -⟩ := encodeJson_cases h
  obtain ⟨zero, hbuild, hzero, htag⟩ := hvalue.variant v hv
  have hvtag : v.typeTag = value.typeTag := (TypeTable.mem_of_byTypeTag? hv).2.2
  obtain ⟨result, hset, hresult, hsame⟩ :=
    ChoiceValue.setJson_toJson hzero hvalue.base (htag.trans hvtag) hvalid hpayload
  refine ⟨result, decodeJson_of_restores hd hv hpayload (fun _ => ?_) ?_ hresult h, hsame⟩
  · exact ChoiceValue.toJson_eq_string hvalue.base hpayload
  · exact ⟨zero, payload, hbuild, hpayload, hset⟩

/-- A built-in value is read back from both forms as the same data. -/
theorem decode_encode {types : TypeTable} (hd : types.Distinct) {family : Family}
    {value : ChoiceValue} (hvalue : value.BuiltIn types family) {f : Form} {v : f.Value}
    (h : encode types family f value = .ok v) :
    ∃ result, decode types family f v = .ok result ∧ (result == value) = true := by
  cases f with
  | binary => exact decodeCbor_encodeCbor hd hvalue h
  | text => exact decodeJson_encodeJson hd hvalue h

end Choice

end Rim
