import Rim.Proofs.SameData

/-!
# One text and one octet string for every value

A value of the base schema may come from a text in one of several spellings, from octets, from an
item of either form, or as it is. However it came about, if it is valid then its canonical text
makes it again, and so do the octets of its binary payload.

* `Choice.made_of_build`, `Choice.made_of_decode`: what a family builds from seeds and reads from
  items is made by these operations.
* `ChoiceValue.build_display`, `ChoiceValue.build_octets`: the two ways back.
* `ChoiceValue.beq_iff`: two values are the same data exactly if type tag and text are the same.
* `canonical_seeds_rebuild`: all of this, for the variants that a table registers.
-/

namespace Rim

/-- The octets of a payload: those of a byte string, and those that spell a text. -/
def Cbor.octets? : Cbor → Option Bytes
  | .text s => some (Bytes.ofString s)
  | .bytes bs => some bs
  | _ => none

/-! ## Variants of the base schema -/

/-- A variant that builds its values as the one of the base schema with its type tag does. The
family and the discriminator may be others. -/
def Variant.IsBuiltIn (v : Variant) : Prop :=
  ∃ b ∈ TypeTable.builtin, b.typeTag = v.typeTag ∧ b.factory.build = v.factory.build

theorem Variant.isBuiltIn_of_mem {v : Variant} (h : v ∈ TypeTable.builtin) : v.IsBuiltIn :=
  ⟨v, h, rfl, rfl⟩

/-- The type tag of a value tells by which factory its variant builds. -/
theorem Variant.IsBuiltIn.cases {v : Variant} (h : v.IsBuiltIn) {value : ChoiceValue}
    (hbase : value.IsBase) (htag : v.typeTag = value.typeTag) :
    (∃ s, value = .text s ∧ v.factory.build = Factory.text.build) ∨
      (∃ dotted, value = .oid dotted ∧ v.factory.build = Factory.oid.build) ∨
      (∃ u, value = .uuid u ∧ v.factory.build = Factory.uuid.build) ∨
      ∃ bs, value = .bytes bs ∧ v.factory.build = Factory.bytes.build := by
  obtain ⟨b, hb, hbtag, hbuild⟩ := h
  rw [← hbtag] at htag
  rw [← hbuild]
  simp only [TypeTable.builtin, List.mem_cons, List.not_mem_nil, or_false] at hb
  rcases hb with rfl | rfl | rfl | rfl | rfl | rfl | rfl | rfl <;> cases value <;>
    simp_all [ChoiceValue.IsBase, ChoiceValue.typeTag]

namespace ChoiceValue

/-! ## The values that operations make -/

/-- Every canonical value can be made: plain values as they are, an object identifier from its
octets. -/
theorem Canonical.made {value : ChoiceValue} (h : value.Canonical) : value.Made := by
  cases value with
  | text s => exact .text s
  | uuid u => exact .uuid u
  | bytes bs => exact .bytes bs
  | custom variant content => exact h.elim
  | oid dotted =>
    have hmem : (⟨.classId, "oid", .tag TagNumber.oid, .oid⟩ : Variant) ∈ TypeTable.builtin := by
      simp [TypeTable.builtin]
    rcases h with rfl | ⟨ber, hber⟩
    · have hbuild : Factory.oid.build none = .ok (.oid "") := rfl
      exact .build hmem hbuild
    · have hbuild : Factory.oid.build (some (.bytes ber)) = .ok (.oid dotted) := by
        simp [Factory.oid, hber]
      exact .build hmem hbuild

/-- What is read from a payload as a value of the base schema is canonical, whatever value took the
payload over. -/
theorem canonical_of_setPayload {value next : ChoiceValue} {f : Form} {payload : f.Value}
    (h : value.setPayload f payload = .ok next) (hnext : next.IsBase) : next.Canonical := by
  have hvalue : value.IsBase := by
    cases value with
    | custom variant content =>
      -- A value of a custom variant stays one.
      cases f <;>
      · obtain ⟨_, -, h⟩ := Except.bind_eq_ok_iff.1 h
        obtain rfl := Except.pure_eq_ok_iff.1 h
        exact hnext
    | _ => trivial
  cases f with
  | binary => exact canonical_of_setCbor hvalue h
  | text => exact canonical_of_setJson hvalue h

/-! ## The two ways back -/

variable {value : ChoiceValue}

/-- A valid object identifier that is canonical is the spelling of its octets. -/
theorem Canonical.exists_ber {dotted : String} (h : (oid dotted).Canonical)
    (hvalid : (oid dotted).validate = .ok ()) :
    ∃ ber, Oid.toBer dotted = .ok ber ∧ Oid.ofBer ber = .ok dotted := by
  obtain ⟨ber, hber⟩ := toBer_of_validate hvalid
  exact ⟨ber, hber, h.ofBer_of_toBer hber⟩

/-- The variant of a valid value makes it from its canonical text. -/
theorem build_display (h : value.Canonical) (hvalid : value.validate = .ok ()) {v : Variant}
    (hv : v.IsBuiltIn) (htag : v.typeTag = value.typeTag) :
    v.factory.build (some (.text value.display)) = .ok value := by
  rcases hv.cases h.isBase htag with ⟨s, rfl, hbuild⟩ | ⟨dotted, rfl, hbuild⟩ | ⟨u, rfl, hbuild⟩ |
    ⟨bs, rfl, hbuild⟩
  · rw [hbuild]
    rfl
  · obtain ⟨ber, hber, hread⟩ := h.exists_ber hvalid
    have hcanon : Oid.canonical dotted = .ok dotted := Oid.canonical_of_ofBer hread
    simp [hbuild, Factory.oid, Factory.oidOfText, display, hcanon]
  · simp [hbuild, Factory.uuid, Factory.ofUuid, display, Uuid.parse_toString]
  · simp [hbuild, Factory.bytes, display, Hex.decode_encode]

/-- A valid value has a binary payload, and its variant makes it from the octets of that. -/
theorem build_octets (h : value.Canonical) (hvalid : value.validate = .ok ()) {v : Variant}
    (hv : v.IsBuiltIn) (htag : v.typeTag = value.typeTag) :
    ∃ payload octets, value.toCbor = .ok payload ∧ payload.octets? = some octets ∧
      v.factory.build (some (.bytes octets)) = .ok value := by
  rcases hv.cases h.isBase htag with ⟨s, rfl, hbuild⟩ | ⟨dotted, rfl, hbuild⟩ | ⟨u, rfl, hbuild⟩ |
    ⟨bs, rfl, hbuild⟩
  · refine ⟨.text s, Bytes.ofString s, rfl, rfl, ?_⟩
    simp [hbuild, Factory.text]
  · obtain ⟨ber, hber, hread⟩ := h.exists_ber hvalid
    refine ⟨.bytes ber, ber, by simp [toCbor, hber], rfl, ?_⟩
    simp [hbuild, Factory.oid, hread]
  · refine ⟨.bytes u.octets, u.octets, rfl, rfl, ?_⟩
    simp [hbuild, Factory.uuid, Factory.ofUuid, Uuid.ofBytes, u.length_octets]
  · refine ⟨.bytes bs, bs, rfl, rfl, ?_⟩
    simp [hbuild, Factory.bytes]

/-! ## Equality -/

/-- A value that has a binary payload is the same data as itself. -/
theorem beq_self_of_validate (h : value.Canonical) (hvalid : value.validate = .ok ()) :
    (value == value) = true := by
  cases value with
  | custom variant content => exact h.elim
  | oid dotted =>
    obtain ⟨ber, hber, -⟩ := h.exists_ber hvalid
    have hpayload : (oid dotted).toCbor = .ok (.bytes ber) := by simp [toCbor, hber]
    exact same_of_toCbor rfl hpayload hpayload (by simp [Cbor.agrees])
  | text | uuid | bytes => exact same_of_toCbor rfl rfl rfl (by simp [Cbor.agrees])

/-- The type tag and the canonical text of a valid value determine it. -/
theorem eq_of_display {a b : ChoiceValue} (ha : a.Canonical) (hb : b.Canonical)
    (htag : a.typeTag = b.typeTag) (htext : a.display = b.display) : a = b := by
  rcases cases_of_typeTag_eq ha.isBase hb.isBase htag with
    ⟨s, t, rfl, rfl⟩ | ⟨s, t, rfl, rfl⟩ | ⟨u, v, rfl, rfl⟩ | ⟨s, t, rfl, rfl⟩
  · exact congrArg text htext
  · exact congrArg oid htext
  · have hread := congrArg Uuid.parse htext
    simp only [display, Uuid.parse_toString] at hread
    rw [Except.ok.inj hread]
  · have hread := congrArg Hex.decode htext
    simp only [display, Hex.decode_encode] at hread
    rw [Except.ok.inj hread]

/-- Two valid values are the same data exactly if they have one type tag and one canonical text. -/
theorem beq_iff {a b : ChoiceValue} (ha : a.Canonical) (hb : b.Canonical)
    (hvalid : a.validate = .ok ()) :
    (a == b) = true ↔ a.typeTag = b.typeTag ∧ a.display = b.display := by
  constructor
  · intro hsame
    rw [eq_of_beq ha hb hsame]
    exact ⟨rfl, rfl⟩
  · rintro ⟨htag, htext⟩
    obtain rfl := eq_of_display ha hb htag htext
    exact beq_self_of_validate ha hvalid

end ChoiceValue

/-! ## In a family -/

namespace Choice

variable {types : TypeTable} {family : Family} {value : ChoiceValue}

theorem build_eq {typeTag : String} {v : Variant}
    (hv : types.byTypeTag? family typeTag = some v) (seed : Option Seed) :
    build types family typeTag seed = v.factory.build seed := by
  simp [build, TypeTable.resolveTypeTag, hv, bind, Except.bind]

/-- What a variant of the base schema builds in a family is made by it. -/
theorem made_of_build {typeTag : String} {v : Variant} {seed : Option Seed}
    (hv : types.byTypeTag? family typeTag = some v) (hbuiltin : v.IsBuiltIn)
    (h : build types family typeTag seed = .ok value) : value.Made := by
  obtain ⟨b, hb, -, hfactory⟩ := hbuiltin
  rw [build_eq hv, ← hfactory] at h
  exact .build hb h

theorem exists_zero_of_fill {v : Variant} {set : ChoiceValue → Except DecodeError ChoiceValue}
    (h : fill v set = .ok value) : ∃ zero, set zero = .ok value := by
  obtain ⟨zero, -, hset⟩ := Except.bind_eq_ok_iff.1 h
  exact ⟨zero, Except.mapError_eq_ok_iff.1 hset⟩

/-- What is read from an item is what some zero value makes of a payload. -/
theorem exists_setPayload_of_decode {f : Form} {item : f.Value}
    (h : decode types family f item = .ok value) :
    ∃ (zero : ChoiceValue) (payload : f.Value), zero.setPayload f payload = .ok value := by
  cases f with
  | binary =>
    obtain ⟨-, payload, -, zero, -, -, -, hset⟩ := decodeCbor_cases h
    exact ⟨zero, payload, hset⟩
  | text =>
    have henvelope : ∀ e, decodeEnvelope types family e = .ok value →
        ∃ (zero : ChoiceValue) (payload : Json), zero.setPayload .text payload = .ok value := by
      intro e he
      unfold decodeEnvelope at he
      split at he
      · cases he
      · obtain ⟨result, hfill, he⟩ := Except.bind_eq_ok_iff.1 he
        obtain ⟨_, -, he⟩ := Except.bind_eq_ok_iff.1 he
        obtain rfl := Except.pure_eq_ok_iff.1 he
        obtain ⟨zero, hset⟩ := exists_zero_of_fill hfill
        exact ⟨zero, e.value, hset⟩
    cases item with
    | string s =>
      obtain ⟨v, -, hfill⟩ := Except.bind_eq_ok_iff.1 h
      obtain ⟨zero, hset⟩ := exists_zero_of_fill hfill
      exact ⟨zero, .string s, hset⟩
    | _ =>
      obtain ⟨e, -, he⟩ := Except.bind_eq_ok_iff.1 h
      exact henvelope e he

/-- A value of the base schema that a family reads is made by the operations, whatever zero value
its variant starts from. -/
theorem made_of_decode {f : Form} {item : f.Value} (h : decode types family f item = .ok value)
    (hbase : value.IsBase) : value.Made := by
  obtain ⟨zero, payload, hset⟩ := exists_setPayload_of_decode h
  exact (ChoiceValue.canonical_of_setPayload hset hbase).made

end Choice

/-- Take any table of variants and any family. A value of the base schema that a variant of the
base schema builds there, or that is read there from an item of either form, is one that the
operations make. For every such value that is valid, if the variant under its type tag is that of
the base schema, its canonical text is a seed that makes it again, and so are the octets of its
binary payload. Two such values, the first of them valid, are the same data exactly if they have the
same type tag and the same canonical text. -/
theorem canonical_seeds_rebuild (types : TypeTable) (family : Family) :
    (∀ typeTag v seed value, types.byTypeTag? family typeTag = some v → v.IsBuiltIn →
      Choice.build types family typeTag seed = .ok value → value.Made) ∧
    (∀ f item value, Choice.decode types family f item = .ok value → value.IsBase →
      value.Made) ∧
    (∀ value : ChoiceValue, value.Made → value.validate = .ok () →
      ∀ v, types.byTypeTag? family value.typeTag = some v → v.IsBuiltIn →
        Choice.build types family value.typeTag (some (.text value.display)) = .ok value ∧
        ∃ payload octets, value.toCbor = .ok payload ∧ payload.octets? = some octets ∧
          Choice.build types family value.typeTag (some (.bytes octets)) = .ok value) ∧
    ∀ a b : ChoiceValue, a.Made → b.Made → a.validate = .ok () →
      ((a == b) = true ↔ a.typeTag = b.typeTag ∧ a.display = b.display) := by
  refine ⟨?_, ?_, ?_, ?_⟩
  · intro typeTag v seed value hv hbuiltin h
    exact Choice.made_of_build hv hbuiltin h
  · intro f item value h hbase
    exact Choice.made_of_decode h hbase
  · intro value hmade hvalid v hv hbuiltin
    have htag : v.typeTag = value.typeTag := (TypeTable.mem_of_byTypeTag? hv).2.2
    obtain ⟨payload, octets, hpayload, hoctets, hbuild⟩ :=
      ChoiceValue.build_octets hmade.canonical hvalid hbuiltin htag
    refine ⟨?_, payload, octets, hpayload, hoctets, ?_⟩
    · rw [Choice.build_eq hv]
      exact ChoiceValue.build_display hmade.canonical hvalid hbuiltin htag
    · rw [Choice.build_eq hv]
      exact hbuild
  · intro a b ha hb hvalid
    exact ChoiceValue.beq_iff ha.canonical hb.canonical hvalid

/-- A text with a sign and a leading zero, and the octets of the same identifier: both values are
made again by the text without either, and they are the same data. -/
theorem canonical_seeds_rebuild_signed :
    ∃ a b, Choice.build .builtin .classId "oid" (some (.text "+2.05.4")) = .ok a ∧
      Choice.decode .builtin .classId .binary (.tag TagNumber.oid (.bytes [0x55, 0x04])) = .ok b ∧
      Choice.build .builtin .classId "oid" (some (.text "2.5.4")) = .ok a ∧
      (∃ payload octets, a.toCbor = .ok payload ∧ payload.octets? = some octets ∧
        Choice.build .builtin .classId "oid" (some (.bytes octets)) = .ok a) ∧
      (a == b) = true := by
  obtain ⟨hbuilt, hread, hrebuild, hsame⟩ := canonical_seeds_rebuild .builtin .classId
  have hvariant : TypeTable.builtin.byTypeTag? .classId "oid" =
      some ⟨.classId, "oid", .tag TagNumber.oid, .oid⟩ := rfl
  have hbuiltin : Variant.IsBuiltIn ⟨.classId, "oid", .tag TagNumber.oid, .oid⟩ :=
    Variant.isBuiltIn_of_mem (TypeTable.mem_of_byTypeTag? hvariant).1
  have hber : Oid.toBer "+2.05.4" = .ok [0x55, 0x04] := by
    have harcs : Oid.arcs "+2.05.4" = .ok (2, 5, [4]) := by decide +kernel
    rw [Oid.toBer_of_arcs harcs]
    simp [Oid.groups]
  have hdotted : Oid.ofBer [0x55, 0x04] = .ok "2.5.4" := by decide +kernel
  have ha : Choice.build .builtin .classId "oid" (some (.text "+2.05.4")) =
      .ok (.oid "2.5.4") := by
    rw [Choice.build_eq hvariant]
    simp [Factory.oid, Factory.oidOfText, Oid.canonical, hber, hdotted, bind, Except.bind]
  have hb : Choice.decode .builtin .classId .binary
      (.tag TagNumber.oid (.bytes [0x55, 0x04])) = .ok (.oid "2.5.4") := by
    have hset : (ChoiceValue.oid "").setCbor (.bytes [0x55, 0x04]) = .ok (.oid "2.5.4") := by
      simp [ChoiceValue.setCbor, Cbor.expectBytes, hdotted, bind, Except.bind, pure, Except.pure]
    have hfill : Choice.fill ⟨.classId, "oid", .tag TagNumber.oid, .oid⟩
        (·.setCbor (.bytes [0x55, 0x04])) = .ok (.oid "2.5.4") := Choice.fill_of_build rfl hset
    exact hfill
  have hvalid : (ChoiceValue.oid "2.5.4").validate = .ok () :=
    ChoiceValue.validate_oid_of_toBer (Oid.toBer_of_ofBer hdotted)
  have hmade := hbuilt _ _ _ _ hvariant hbuiltin ha
  obtain ⟨htext, hoctets⟩ := hrebuild _ hmade hvalid _ hvariant hbuiltin
  refine ⟨.oid "2.5.4", .oid "2.5.4", ha, hb, htext, hoctets, ?_⟩
  exact (hsame _ _ hmade (hread _ _ _ hb trivial) hvalid).2 ⟨rfl, rfl⟩

end Rim
