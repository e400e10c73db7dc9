import Rim.Proofs.VariantIndexes

/-!
# The two forms of the variants of a family

In the binary form the discriminator of an item leads back to the variant that has written it. In
the text form a string leads to the bare-text variant and an envelope to the variant that it names,
so that a bare-text variant is found again only if its payload is a string. The writer of the binary
form sees to that, the writer of the text form does not.

* `Discriminator.Carried`: an item from which a discriminator is read.
* `TypeTable.ZerosAgree`: the zero values of the variants have their type tags.
* `Choice.Unambiguous`, `Choice.Recognized`: what is known of the binary form of a family.
* `binary_choice_unambiguous`: it is known of every family after any setup.
* `Choice.routeJson_encodeJson_iff`: which values of the text form lead back to their variant.
* `text_choice_routed_back`: when the text form of a value is read back.
-/

namespace Rim

/-! ## Discriminators -/

/-- An item from which a discriminator is read. -/
inductive Discriminator.Carried : Discriminator → Cbor → Prop where
  | bareText (s : String) : Carried .bareText (.text s)
  | bareBytes (bs : Bytes) : Carried .bareBytes (.bytes bs)
  | tag (number : UInt64) (content : Cbor) : Carried (.tag number) (.tag number content)

/-- An item has one discriminator at most. -/
theorem Discriminator.Carried.unique {d d' : Discriminator} {item : Cbor} (h : d.Carried item)
    (h' : d'.Carried item) : d = d' := by
  cases h <;> cases h' <;> rfl

namespace Choice

theorem carried_of_discriminate {item payload : Cbor} {d : Discriminator}
    (h : discriminate item = .ok (d, payload)) : d.Carried item := by
  cases item with
  | text s =>
    obtain ⟨rfl, -⟩ := Prod.mk.inj (Except.ok.inj h)
    exact .bareText s
  | bytes bs =>
    obtain ⟨rfl, -⟩ := Prod.mk.inj (Except.ok.inj h)
    exact .bareBytes bs
  | tag number content =>
    obtain ⟨rfl, -⟩ := Prod.mk.inj (Except.ok.inj h)
    exact .tag number content
  | _ => cases h

/-- A written item carries the discriminator of the variant that its value's type tag leads to. -/
theorem carried_of_encodeCbor {types : TypeTable} {family : Family} {value : ChoiceValue}
    {item : Cbor} (h : encodeCbor types family value = .ok item) :
    ∃ v, types.byTypeTag? family value.typeTag = some v ∧ v.discriminator.Carried item := by
  obtain ⟨v, payload, hv, -, hitem⟩ := encodeCbor_cases h
  exact ⟨v, hv, carried_of_discriminate (discriminate_of_encodePayload hitem)⟩

end Choice

/-! ## Zero values -/

/-- The zero value that a factory builds has the type tag that it had at the time of registration,
from which the table has learned it. -/
def Factory.KeepsTypeTag (f : Factory) : Prop :=
  ∀ first zero, f.probe = .ok first → f.build none = .ok zero → zero.typeTag = first.typeTag

theorem Factory.IsPure.keepsTypeTag {f : Factory} (h : f.IsPure) : f.KeepsTypeTag := by
  intro first zero hfirst hzero
  rw [h, hzero] at hfirst
  rw [Except.ok.inj hfirst]

namespace TypeTable

/-- A zero value, where a variant builds one, has the type tag of the variant. -/
def ZerosAgree (types : TypeTable) : Prop :=
  ∀ v ∈ types, ∀ zero, v.factory.build none = .ok zero → zero.typeTag = v.typeTag

theorem Reported.zerosAgree {types : TypeTable} (h : types.Reported) : types.ZerosAgree := by
  intro v hv zero hzero
  obtain ⟨zero', hzero', htag⟩ := h v hv
  rw [hzero] at hzero'
  rw [Except.ok.inj hzero', htag]

theorem ZerosAgree.register {types table : TypeTable} (h : types.ZerosAgree) {family : Family}
    {discriminator : Discriminator} {factory : Factory} (hkeeps : factory.KeepsTypeTag)
    {typeTag : String}
    (hregister : types.register family discriminator factory = .ok (typeTag, table)) :
    table.ZerosAgree := by
  obtain ⟨⟨first, hprobe, rfl⟩, -, -, rfl⟩ := register_cases hregister
  intro v hv zero hzero
  rcases List.mem_append.1 hv with hv | hv
  · exact h v hv zero hzero
  · obtain rfl := List.mem_singleton.1 hv
    exact hkeeps first zero hprobe hzero

end TypeTable

namespace Registry

/-- A setup call keeps the zero values in agreement, if the factory that it may register keeps its
type tag. -/
theorem Step.zerosAgree {reg next : Registry} {c : SetupCall} (h : reg.Step c next)
    (hkeeps : ∀ family discriminator factory, c = .registerType family discriminator factory →
      factory.KeepsTypeTag) (hz : reg.types.ZerosAgree) : next.types.ZerosAgree := by
  cases h with
  | registerType _ h => exact hz.register (hkeeps _ _ _ rfl) h
  | _ => exact hz

/-- Setup with factories that keep their type tags leaves the zero values in agreement. -/
theorem zerosAgree_attempts {start : Registry} (hstart : start = .empty ∨ start = .withBuiltins)
    {calls : List SetupCall}
    (hkeeps : ∀ family discriminator factory,
      SetupCall.registerType family discriminator factory ∈ calls → factory.KeepsTypeTag) :
    (start.attempts calls).types.ZerosAgree := by
  refine attempts_induction ?_ fun _ _ c hc hstep => hstep.zerosAgree ?_
  · rcases hstart with rfl | rfl
    · exact nofun
    · exact TypeTable.reported_builtin.zerosAgree
  · rintro family discriminator factory rfl
    exact hkeeps family discriminator factory hc

end Registry

/-! ## The binary form -/

namespace Choice

variable {types : TypeTable} {family : Family}

/-- What is written in the binary form is read in one way. -/
structure Unambiguous (types : TypeTable) (family : Family) : Prop where
  /-- A written value is read as what its variant makes of the payload, which is the value itself
  where the payload is lawful. -/
  restored : ∀ (v : Variant) (value result : ChoiceValue) (item : Cbor),
    types.byTypeTag? family value.typeTag = some v → v.Restores .binary value result →
    encodeCbor types family value = .ok item → decodeCbor types family item = .ok result
  /-- Values of different variants are written as different items. -/
  separated : ∀ (a b : ChoiceValue) (item : Cbor), encodeCbor types family a = .ok item →
    encodeCbor types family b = .ok item → a.typeTag = b.typeTag

/-- A value that is read from the binary form has a registered type tag, and is written, if it is,
with the discriminator with which it was read. -/
def Recognized (types : TypeTable) (family : Family) : Prop :=
  ∀ (item : Cbor) (value : ChoiceValue), decodeCbor types family item = .ok value →
    ∃ v, types.byTypeTag? family value.typeTag = some v ∧ v.discriminator.Carried item ∧
      ∀ out, encodeCbor types family value = .ok out → v.discriminator.Carried out

theorem unambiguous_of_distinct (hd : types.Distinct) : Unambiguous types family := by
  constructor
  · intro v value result item hv hrestores hitem
    exact decodeCbor_of_restores hd hv hrestores hitem
  · intro a b item ha hb
    obtain ⟨v, hv, hcarried⟩ := carried_of_encodeCbor ha
    obtain ⟨w, hw, hcarried'⟩ := carried_of_encodeCbor hb
    -- One discriminator has one variant, and a variant one type tag.
    have hvdisc := hd.byDiscriminator?_of_byTypeTag? hv
    rw [hcarried.unique hcarried', hd.byDiscriminator?_of_byTypeTag? hw] at hvdisc
    obtain rfl := Option.some.inj hvdisc
    rw [← (TypeTable.mem_of_byTypeTag? hv).2.2, (TypeTable.mem_of_byTypeTag? hw).2.2]

theorem recognized_of_zerosAgree (hd : types.Distinct) (hz : types.ZerosAgree) :
    Recognized types family := by
  intro item value hvalue
  obtain ⟨d, payload, v, zero, hitem, hv, hzero, hset⟩ := decodeCbor_cases hvalue
  obtain ⟨hmem, -, rfl⟩ := TypeTable.mem_of_byDiscriminator? hv
  have htag : value.typeTag = v.typeTag := by
    rw [ChoiceValue.typeTag_setCbor hset, hz v hmem zero hzero]
  have hfound : types.byTypeTag? family value.typeTag = some v := by
    rw [htag]
    exact hd.byTypeTag?_of_byDiscriminator? hv
  refine ⟨v, hfound, carried_of_discriminate hitem, fun out hout => ?_⟩
  obtain ⟨w, hw, hcarried⟩ := carried_of_encodeCbor hout
  obtain rfl := Option.some.inj (hfound.symm.trans hw)
  exact hcarried

end Choice

/-- Take a registry without variants or with those of the base schema, and any setup calls, whether
they succeed or not. In every family the binary form is then unambiguous: a written value is read as
what its variant makes of its payload, and no other variant writes the same item. If the registered
factories keep their type tags, a value that is read has a registered type tag and is written with
the discriminator with which it was read. -/
theorem binary_choice_unambiguous {start : Registry}
    (hstart : start = .empty ∨ start = .withBuiltins) (calls : List SetupCall) (family : Family) :
    Choice.Unambiguous (start.attempts calls).types family ∧
      ((∀ family discriminator factory,
          SetupCall.registerType family discriminator factory ∈ calls → factory.KeepsTypeTag) →
        Choice.Recognized (start.attempts calls).types family) := by
  have hd := Registry.distinct_attempts hstart calls
  exact ⟨Choice.unambiguous_of_distinct hd,
    fun hkeeps => Choice.recognized_of_zerosAgree hd (Registry.zerosAgree_attempts hstart hkeeps)⟩

/-- A variant without content: its payload is null in both forms. -/
def markVariant : CustomVariant where
  typeTag := "mark"
  display _ := "mark"
  validate _ := .ok ()
  toCbor _ := .ok .null
  setCbor
    | content, .null => .ok content
    | _, payload => Cbor.unexpected "null" payload
  toJson _ := .ok .null
  setJson
    | content, .null => .ok content
    | _, payload => Json.unexpected "null" payload

/-- The one value of the variant. -/
def mark : ChoiceValue := .custom markVariant .null

def markFactory : Factory := { build := fun _ => .ok mark }

/-- Registers marks among the class identifiers. -/
def markSetup (discriminator : Discriminator) : List SetupCall :=
  [.registerType .classId discriminator markFactory]

/-- Marks under a tag come back from the binary form, and what is read under the tag is written
under it. -/
theorem binary_choice_unambiguous_mark :
    let types := (Registry.withBuiltins.attempts (markSetup (.tag 700))).types
    Choice.encodeCbor types .classId mark = .ok (.tag 700 .null) ∧
      Choice.decodeCbor types .classId (.tag 700 .null) = .ok mark ∧
      ∃ v, types.byTypeTag? .classId "mark" = some v ∧
        v.discriminator.Carried (.tag 700 .null) := by
  intro types
  obtain ⟨hunambiguous, hrecognized⟩ :=
    binary_choice_unambiguous (.inr rfl) (markSetup (.tag 700)) .classId
  have hitem : Choice.encodeCbor types .classId mark = .ok (.tag 700 .null) := rfl
  have hread : Choice.decodeCbor types .classId (.tag 700 .null) = .ok mark :=
    hunambiguous.restored ⟨.classId, "mark", .tag 700, markFactory⟩ mark mark _ rfl
      ⟨mark, .null, rfl, rfl, rfl⟩ hitem
  refine ⟨hitem, hread, ?_⟩
  have hkeeps : ∀ family discriminator factory,
      SetupCall.registerType family discriminator factory ∈ markSetup (.tag 700) →
        factory.KeepsTypeTag := by
    intro family discriminator factory h
    simp only [markSetup, List.mem_singleton, SetupCall.registerType.injEq] at h
    obtain ⟨-, -, rfl⟩ := h
    exact Factory.IsPure.keepsTypeTag rfl
  obtain ⟨v, hv, hcarried, -⟩ := hrecognized hkeeps _ _ hread
  exact ⟨v, hv, hcarried⟩

/-! ## The text form -/

namespace Choice

variable {types : TypeTable} {family : Family}

/-- Only an envelope leads anywhere but to the bare-text variant. -/
theorem routeJson_cases {item payload : Json} {v : Variant}
    (h : routeJson types family item = .ok (v, payload)) :
    (∃ s, item = .string s ∧ payload = .string s) ∨
      ∃ e, Json.Envelope.ofJson item = .ok e ∧ payload = e.value := by
  cases item with
  | string s =>
    obtain ⟨_, -, hroute⟩ := Except.bind_eq_ok_iff.1 h
    obtain ⟨-, rfl⟩ := Prod.mk.inj (Except.ok.inj hroute)
    exact .inl ⟨s, rfl, rfl⟩
  | _ =>
    obtain ⟨e, he, hroute⟩ := Except.bind_eq_ok_iff.1 h
    split at hroute
    · cases hroute
    · obtain ⟨-, rfl⟩ := Prod.mk.inj (Except.ok.inj hroute)
      exact .inr ⟨e, he, rfl⟩

/-- The text form of a value leads back to its variant and payload exactly if the payload is a
string or goes into an envelope. -/
theorem routeJson_encodeJson_iff (hd : types.Distinct) {value : ChoiceValue} {v : Variant}
    (hv : types.byTypeTag? family value.typeTag = some v) {payload item : Json}
    (hpayload : value.toJson = .ok payload) (h : encodeJson types family value = .ok item) :
    routeJson types family item = .ok (v, payload) ↔
      (v.discriminator = .bareText → ∃ s, payload = .string s) := by
  constructor
  · intro hroute hbare
    obtain ⟨-, v', payload', hv', hpayload', rfl⟩ := encodeJson_cases h
    obtain rfl := Option.some.inj (hv.symm.trans hv')
    obtain rfl := Except.ok.inj (hpayload.symm.trans hpayload')
    rw [if_pos hbare] at hroute
    rcases routeJson_cases hroute with ⟨s, -, hs⟩ | ⟨e, he, hvalue⟩
    · exact ⟨s, hs⟩
    · -- An item that is not in an envelope cannot be the payload of one.
      have hlt := Json.Envelope.sizeOf_value_lt he
      rw [← hvalue] at hlt
      exact absurd hlt (Nat.lt_irrefl _)
  · intro hbare
    exact routeJson_of_encodeJson hd hv hpayload hbare h

end Choice

/-- Take a registry without variants or with those of the base schema, and any setup calls, whether
they succeed or not. The text form of a value leads back to its variant exactly if its payload is a
string or the variant is not the bare-text one; it is then read as what the variant makes of the
payload, which is the value itself where the payload is lawful. An item that leads nowhere is
refused. Payloads of the base schema are strings. -/
theorem text_choice_routed_back {start : Registry}
    (hstart : start = .empty ∨ start = .withBuiltins) (calls : List SetupCall) {family : Family}
    {v : Variant} {value : ChoiceValue} {payload item : Json}
    (hv : (start.attempts calls).types.byTypeTag? family value.typeTag = some v)
    (hpayload : value.toJson = .ok payload)
    (hitem : Choice.encodeJson (start.attempts calls).types family value = .ok item) :
    (Choice.routeJson (start.attempts calls).types family item = .ok (v, payload) ↔
        (v.discriminator = .bareText → ∃ s, payload = .string s)) ∧
      ((v.discriminator = .bareText → ∃ s, payload = .string s) →
        ∀ result, v.Restores .text value result → result.validate = .ok () →
          Choice.decodeJson (start.attempts calls).types family item = .ok result) ∧
      (∀ e, Choice.routeJson (start.attempts calls).types family item = .error e →
        Choice.decodeJson (start.attempts calls).types family item = .error e) ∧
      (value.IsBase → ∃ s, payload = .string s) := by
  have hd := Registry.distinct_attempts hstart calls
  refine ⟨Choice.routeJson_encodeJson_iff hd hv hpayload hitem, ?_, ?_, ?_⟩
  · intro hbare result hrestores hvalid
    exact Choice.decodeJson_of_restores hd hv hpayload hbare hrestores hvalid hitem
  · intro e he
    exact Choice.decodeJson_of_route_error he
  · intro hbase
    exact ChoiceValue.toJson_eq_string hbase hpayload

/-- Marks under a tag come back from the text form. As the bare-text variant they are written too,
but what is written leads nowhere and is refused. -/
theorem text_choice_routed_back_mark :
    (let types := (Registry.withBuiltins.attempts (markSetup (.tag 700))).types
      ∃ item, Choice.encodeJson types .classId mark = .ok item ∧
        Choice.decodeJson types .classId item = .ok mark) ∧
    let types := (Registry.withBuiltins.attempts (markSetup .bareText)).types
    Choice.encodeJson types .classId mark = .ok .null ∧
      Choice.routeJson types .classId .null ≠
        .ok (⟨.classId, "mark", .bareText, markFactory⟩, .null) ∧
      Choice.decodeJson types .classId .null = Json.unexpected "object" .null := by
  constructor
  · intro types
    have hv : types.byTypeTag? .classId mark.typeTag =
        some ⟨.classId, "mark", .tag 700, markFactory⟩ := rfl
    have hitem : Choice.encodeJson types .classId mark =
        .ok (Json.Envelope.toJson ⟨"mark", .null⟩) := rfl
    obtain ⟨-, hread, -⟩ := text_choice_routed_back (.inr rfl) (markSetup (.tag 700)) hv rfl hitem
    exact ⟨_, hitem, hread nofun mark ⟨mark, .null, rfl, rfl, rfl⟩ rfl⟩
  · intro types
    have hv : types.byTypeTag? .classId mark.typeTag =
        some ⟨.classId, "mark", .bareText, markFactory⟩ := rfl
    have hitem : Choice.encodeJson types .classId mark = .ok .null := rfl
    obtain ⟨hroute, -, hrefused, -⟩ :=
      text_choice_routed_back (.inr rfl) (markSetup .bareText) hv rfl hitem
    refine ⟨hitem, fun h => ?_, hrefused _ rfl⟩
    obtain ⟨s, hs⟩ := hroute.1 h rfl
    cases hs

end Rim
