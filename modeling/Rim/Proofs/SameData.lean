import Mathlib.Data.List.Perm.Subperm
import Rim.Proofs.Choice
import Rim.Proofs.Extension.Set

/-!
# The same data is written alike

Values are compared by what they write, not by how they are held. For the values that operations
make this is no difference.

* `ChoiceValue.Made`, `ChoiceValue.Made.canonical`: the values of the base schema that operations
  make. Their object identifiers are in canonical spelling.
* `ChoiceValue.eq_of_beq`: two of them that are the same data are one value.
* `TypeTable.Agree`, `Choice.encode_congr`: tables that select the same discriminators write alike.
* `ExtensionSet.entries_eq_of_beq`: sets that hold the same data hold the same entries.
* `ExtensionSet.encode_congr`: such sets with equal shapes write alike. A set that holds nothing
  need not have a shape.
-/

namespace Rim

/-! ## Type choices -/

namespace ChoiceValue

/-- The values of the base schema that operations make: plain values, which are taken as they are,
what the variants of the base schema build from seeds, and what is read from payloads. -/
inductive Made : ChoiceValue → Prop where
  | text (s : String) : Made (.text s)
  | uuid (u : Uuid) : Made (.uuid u)
  | bytes (bs : Bytes) : Made (.bytes bs)
  | build {v : Variant} {seed : Option Seed} {value : ChoiceValue} : v ∈ TypeTable.builtin →
      v.factory.build seed = .ok value → Made value
  | setCbor {value next : ChoiceValue} {payload : Cbor} : Made value →
      value.setCbor payload = .ok next → Made next
  | setJson {value next : ChoiceValue} {payload : Json} : Made value →
      value.setJson payload = .ok next → Made next

/-- A value of the base schema whose object identifier, if it is one, is empty or the spelling of
content octets. -/
def Canonical : ChoiceValue → Prop
  | .oid dotted => dotted = "" ∨ ∃ ber, Oid.ofBer ber = .ok dotted
  | .custom _ _ => False
  | _ => True

theorem Canonical.isBase {value : ChoiceValue} (h : value.Canonical) : value.IsBase := by
  cases value with
  | custom variant content => exact h.elim
  | _ => trivial

theorem canonical_of_spelling {text spelling : String} (h : Oid.canonical text = .ok spelling) :
    (oid spelling).Canonical := by
  obtain ⟨ber, -, hread⟩ := Oid.ofBer_of_canonical h
  exact .inr ⟨ber, hread⟩

theorem canonical_of_oid_build {seed : Option Seed} {value : ChoiceValue}
    (h : Factory.oid.build seed = .ok value) : value.Canonical := by
  simp only [Factory.oid, Factory.oidOfText] at h
  split at h
  · cases h
    exact .inl rfl
  · split at h
    next hcanon =>
      cases h
      exact canonical_of_spelling hcanon
    next => cases h
  next ber =>
    split at h
    next hread =>
      cases h
      exact .inr ⟨ber, hread⟩
    next => cases h
  · cases h

theorem canonical_of_uuid_build {seed : Option Seed} {value : ChoiceValue}
    (h : Factory.uuid.build seed = .ok value) : value.Canonical := by
  simp only [Factory.uuid, Factory.ofUuid] at h
  (repeat' split at h) <;> cases h <;> trivial

/-- What a variant of the base schema builds is canonical. -/
theorem canonical_of_build {v : Variant} (hv : v ∈ TypeTable.builtin) {seed : Option Seed}
    {value : ChoiceValue} (h : v.factory.build seed = .ok value) : value.Canonical := by
  have hfactory : v.factory = .text ∨ v.factory = .oid ∨ v.factory = .uuid ∨
      v.factory = .bytes := by
    simp only [TypeTable.builtin, List.mem_cons, List.not_mem_nil, or_false] at hv
    rcases hv with rfl | rfl | rfl | rfl | rfl | rfl | rfl | rfl <;> simp
  rcases hfactory with hfactory | hfactory | hfactory | hfactory <;> rw [hfactory] at h
  · simp only [Factory.text] at h
    (repeat' split at h) <;> cases h <;> trivial
  · exact canonical_of_oid_build h
  · exact canonical_of_uuid_build h
  · simp only [Factory.bytes] at h
    (repeat' split at h) <;> cases h <;> trivial

/-- What is read from a binary payload is canonical. -/
theorem canonical_of_setCbor {value next : ChoiceValue} {payload : Cbor} (hbase : value.IsBase)
    (h : value.setCbor payload = .ok next) : next.Canonical := by
  cases value with
  | custom variant content => exact hbase.elim
  | oid dotted =>
    obtain ⟨ber, -, h⟩ := Except.bind_eq_ok_iff.1 h
    split at h
    next spelling hread =>
      obtain rfl := Except.pure_eq_ok_iff.1 h
      exact .inr ⟨ber, hread⟩
    next => cases h
  | uuid u =>
    obtain ⟨raw, -, h⟩ := Except.bind_eq_ok_iff.1 h
    split at h
    · obtain rfl := Except.pure_eq_ok_iff.1 h
      trivial
    · cases h
  | text | bytes =>
    obtain ⟨_, -, h⟩ := Except.bind_eq_ok_iff.1 h
    obtain rfl := Except.pure_eq_ok_iff.1 h
    trivial

/-- What is read from a text payload is canonical. -/
theorem canonical_of_setJson {value next : ChoiceValue} {payload : Json} (hbase : value.IsBase)
    (h : value.setJson payload = .ok next) : next.Canonical := by
  cases value with
  | custom variant content => exact hbase.elim
  | oid dotted =>
    obtain ⟨text, -, h⟩ := Except.bind_eq_ok_iff.1 h
    split at h
    next spelling hcanon =>
      obtain rfl := Except.pure_eq_ok_iff.1 h
      exact canonical_of_spelling hcanon
    next => cases h
  | uuid u =>
    obtain ⟨text, -, h⟩ := Except.bind_eq_ok_iff.1 h
    split at h
    · obtain rfl := Except.pure_eq_ok_iff.1 h
      trivial
    · cases h
  | text s =>
    obtain ⟨_, -, h⟩ := Except.bind_eq_ok_iff.1 h
    obtain rfl := Except.pure_eq_ok_iff.1 h
    trivial
  | bytes bs =>
    obtain ⟨_, -, h⟩ := Except.bind_eq_ok_iff.1 h
    obtain ⟨_, -, h⟩ := Except.bind_eq_ok_iff.1 h
    obtain rfl := Except.pure_eq_ok_iff.1 h
    trivial

/-- Whatever the way, what operations make is canonical. -/
theorem Made.canonical {value : ChoiceValue} (h : value.Made) : value.Canonical := by
  induction h with
  | text | uuid | bytes => trivial
  | build hv h => exact canonical_of_build hv h
  | setCbor _ h ih => exact canonical_of_setCbor ih.isBase h
  | setJson _ h ih => exact canonical_of_setJson ih.isBase h

/-- A canonical object identifier is spelled as its octets are. -/
theorem Canonical.ofBer_of_toBer {dotted : String} {ber : Bytes} (h : (oid dotted).Canonical)
    (hber : Oid.toBer dotted = .ok ber) : Oid.ofBer ber = .ok dotted := by
  rcases h with rfl | ⟨octets, hread⟩
  · have hempty : Oid.toBer "" = .error (.badArc "") := by rfl
    rw [hempty] at hber
    cases hber
  · obtain rfl : ber = octets := Except.ok.inj (hber.symm.trans (Oid.toBer_of_ofBer hread))
    exact hread

/-- Two canonical values that are the same data are one value. -/
theorem eq_of_beq {a b : ChoiceValue} (ha : a.Canonical) (hb : b.Canonical)
    (h : (a == b) = true) : a = b := by
  have h : a.same b = true := h
  unfold same at h
  obtain ⟨htag, hpayload⟩ := Bool.and_eq_true_iff.1 h
  rcases cases_of_typeTag_eq ha.isBase hb.isBase (by simpa using htag) with
    ⟨s, t, rfl, rfl⟩ | ⟨s, t, rfl, rfl⟩ | ⟨u, v, rfl, rfl⟩ | ⟨s, t, rfl, rfl⟩
  · simpa [toCbor, Cbor.agrees] using hpayload
  · -- Both are the spelling of the one octet string that they are compared by.
    cases hs : Oid.toBer s with
    | error e => simp [toCbor, hs] at hpayload
    | ok ber =>
      cases ht : Oid.toBer t with
      | error e => simp [toCbor, hs, ht] at hpayload
      | ok other =>
        obtain rfl : ber = other := by simpa [toCbor, hs, ht, Cbor.agrees] using hpayload
        have hspelling := (ha.ofBer_of_toBer hs).symm.trans (hb.ofBer_of_toBer ht)
        rw [Except.ok.inj hspelling]
  · obtain ⟨octets, hu⟩ := u
    obtain ⟨others, hv⟩ := v
    simpa [toCbor, Cbor.agrees] using hpayload
  · simpa [toCbor, Cbor.agrees] using hpayload

end ChoiceValue

/-- Two tables select the same discriminators by type tag. -/
def TypeTable.Agree (types others : TypeTable) : Prop :=
  ∀ family typeTag, (types.byTypeTag? family typeTag).map (·.discriminator) =
    (others.byTypeTag? family typeTag).map (·.discriminator)

/-- Tables that agree write a value alike, and refuse it with the same error. -/
theorem Choice.encode_congr {types others : TypeTable} (h : types.Agree others) (family : Family)
    (f : Form) (value : ChoiceValue) :
    encode types family f value = encode others family f value := by
  have hdisc := h family value.typeTag
  cases hv : types.byTypeTag? family value.typeTag with
  | none =>
    rw [hv] at hdisc
    have hw := Option.map_eq_none_iff.1 hdisc.symm
    cases f <;> simp [encode, encodeCbor, encodeJson, registered, hv, hw]
  | some v =>
    rw [hv] at hdisc
    obtain ⟨w, hw, hsame⟩ := Option.map_eq_some_iff.1 hdisc.symm
    have htag : v.typeTag = w.typeTag :=
      (TypeTable.mem_of_byTypeTag? hv).2.2.trans (TypeTable.mem_of_byTypeTag? hw).2.2.symm
    cases f <;>
      simp [encode, encodeCbor, encodeJson, registered, hv, hw, hsame, htag, bind, Except.bind]

/-! ## Extension values -/

theorem Cbor.ofInt64_cases (n : Int64) :
    (∃ k, ofInt64 n = .uint k) ∨ ∃ k, ofInt64 n = .nint k := by
  unfold ofInt64
  split <;> simp

namespace ExtensionValue

theorem eq_of_agreesItems {ds es : List Digest}
    (h : Cbor.agreesItems (ds.map fun d => .array [.uint d.algorithm.number, .bytes d.value])
      (es.map fun d => .array [.uint d.algorithm.number, .bytes d.value]) = true) :
    (ds.map fun d => Cbor.array [.uint d.algorithm.number, .bytes d.value]) =
      es.map fun d => Cbor.array [.uint d.algorithm.number, .bytes d.value] := by
  induction ds generalizing es with
  | nil => cases es <;> simp_all [Cbor.agreesItems]
  | cons d rest ih =>
    cases es with
    | nil => simp [Cbor.agreesItems] at h
    | cons e others =>
      simp only [List.map_cons, Cbor.agreesItems, Cbor.agrees, Bool.and_true, Bool.and_eq_true,
        beq_iff_eq] at h
      rw [List.map_cons, List.map_cons, ih h.2, h.1.1, h.1.2]

/-- Items of library values that agree are one item: there are no floating-point numbers in them. -/
theorem eq_of_agrees {a b : ExtensionValue} (hlib : a.IsLibrary) (htype : a.type = b.type)
    {p q : Cbor} (hp : a.encode .binary = .ok p) (hq : b.encode .binary = .ok q)
    (h : p.agrees q = true) : p = q := by
  cases a with
  | custom type content => exact hlib.elim
  | digests ds =>
    cases b with
    | digests es =>
      rw [encode_digests] at hp hq
      obtain rfl := Except.ok.inj hp
      obtain rfl := Except.ok.inj hq
      rw [eq_of_agreesItems h]
    | _ => cases htype
  | int n =>
    cases b with
    | int m =>
      obtain rfl : Cbor.ofInt64 n = p := Except.ok.inj hp
      obtain rfl : Cbor.ofInt64 m = q := Except.ok.inj hq
      rcases Cbor.ofInt64_cases n with ⟨k, hk⟩ | ⟨k, hk⟩ <;>
        rcases Cbor.ofInt64_cases m with ⟨l, hl⟩ | ⟨l, hl⟩ <;> simp_all [Cbor.agrees]
    | _ => cases htype
  | _ =>
    cases b <;> cases htype
    obtain rfl := Except.ok.inj hp
    obtain rfl := Except.ok.inj hq
    simpa [Cbor.agrees] using h

/-- Two library values that are the same data are one value. -/
theorem eq_of_same {a b : ExtensionValue} (ha : a.IsLibrary) (hb : b.IsLibrary)
    (h : a.same b = true) : a = b := by
  obtain ⟨htype, hitems⟩ := Bool.and_eq_true_iff.1 h
  have htype : a.type = b.type := type_eq_of_same hb htype
  split at hitems
  next p q hp hq =>
    obtain rfl := eq_of_agrees ha htype hp hq hitems
    have hread := decode_encode ha hp
    rw [htype, decode_encode hb hq] at hread
    exact (Except.ok.inj hread).symm
  next => cases hitems

end ExtensionValue

/-! ## Extension sets -/

/-- Shapes that are the same declare the same keys, for programs and on the wire. -/
theorem ExtensionShape.forall₂_of_same {s t : ExtensionShape} (h : s.same t = true) :
    List.Forall₂ (fun x y => x.key = y.key ∧ x.wire = y.wire) s.fields t.fields := by
  obtain ⟨hlength, hfields⟩ := Bool.and_eq_true_iff.1 h
  refine List.forall₂_iff_zip.2 ⟨by simpa using hlength, fun {x y} hxy => ?_⟩
  have hsame : x.same y = true := List.all_eq_true.1 hfields (x, y) hxy
  simp only [ExtensionField.same, Bool.and_eq_true, beq_iff_eq] at hsame
  exact hsame.1

namespace ExtensionSet

/-- Sets that hold the same data hold it under the same keys. -/
theorem keys_perm_of_beq {s t : ExtensionSet} (h : (s == t) = true) :
    (s.entries.map (·.1)).Perm (t.entries.map (·.1)) := by
  obtain ⟨hlength, hentries⟩ := Bool.and_eq_true_iff.1 (show same s t = true from h)
  have hsubset : s.entries.map (·.1) ⊆ t.entries.map (·.1) := by
    intro key hkey
    obtain ⟨e, he, rfl⟩ := List.mem_map.1 hkey
    have hfound := List.all_eq_true.1 hentries e he
    dsimp only at hfound
    split at hfound
    next other hother => exact List.mem_map.2 ⟨_, Keyed.mem_of_find? hother, rfl⟩
    next => cases hfound
  -- As many keys, none of them twice.
  refine (List.subperm_of_subset s.nodup_keys hsubset).perm_of_length_le ?_
  simpa using (beq_iff_eq.1 hlength).ge

/-- Sets that hold the same data hold the same entries, however they were made. -/
theorem entries_eq_of_beq {s t : ExtensionSet}
    (hslib : ∀ e ∈ s.entries, e.2.IsLibrary) (htlib : ∀ e ∈ t.entries, e.2.IsLibrary)
    (h : (s == t) = true) : s.entries = t.entries := by
  obtain ⟨hlength, hentries⟩ := Bool.and_eq_true_iff.1 (show same s t = true from h)
  have hsubset : s.entries ⊆ t.entries := by
    rintro ⟨key, value⟩ he
    have hfound := List.all_eq_true.1 hentries _ he
    dsimp only at hfound
    split at hfound
    next other hother =>
      have hmem := Keyed.mem_of_find? hother
      obtain rfl : value = other :=
        ExtensionValue.eq_of_same (hslib _ he) (htlib _ hmem) hfound
      exact hmem
    next => cases hfound
  -- As many entries under distinct keys, and each of them in the other set.
  have hnodup : s.entries.Nodup := (List.pairwise_map.1 s.sorted).imp fun hlt heq => by
    rw [heq] at hlt
    exact lt_irrefl _ hlt
  have hperm := (List.subperm_of_subset hnodup hsubset).perm_of_length_le
    (by simpa using (beq_iff_eq.1 hlength).ge)
  refine Keyed.eq_of_find? s.sorted t.sorted fun key => Option.ext fun value => ?_
  rw [Keyed.find?_eq_some_iff s.sorted, Keyed.find?_eq_some_iff t.sorted, hperm.mem_iff]

/-- If the first set holds anything, the two have the same shape. -/
def ShapedAlike (s t : ExtensionSet) : Prop :=
  s.entries ≠ [] → ∃ a b, s.shape = some a ∧ t.shape = some b ∧ a.same b = true

theorem encode_of_nil {set : ExtensionSet} (h : set.entries = []) (f : Form) :
    set.encode f = .ok [] := by
  have hlib : ∀ e ∈ set.entries, e.2.IsLibrary := by simp [h]
  obtain ⟨entries, hentries⟩ := exists_encode hlib f
  rw [hentries, encode_of_entries_eq_nil h hentries]

/-- Sets with the same entries are written alike if they have the same shape or hold nothing. -/
theorem encode_congr {s t : ExtensionSet} (hentries : s.entries = t.entries)
    (hshape : s.ShapedAlike t) (f : Form) : s.encode f = t.encode f := by
  by_cases hnil : s.entries = []
  · rw [encode_of_nil hnil, encode_of_nil (hentries ▸ hnil)]
  · obtain ⟨a, b, ha, hb, hsame⟩ := hshape hnil
    have hfields : a.fields.mapM (s.encodeField f) = b.fields.mapM (t.encodeField f) := by
      refine mapM_eq_mapM_of_forall₂ ((ExtensionShape.forall₂_of_same hsame).imp fun x y hxy => ?_)
      simp only [encodeField, hxy.1, hxy.2, hentries]
    simp only [encode, ha, hb, hfields]

/-- Sets with the same values under the same keys hold the same data, in whatever order they were
set, overwritten and deleted. -/
theorem beq_of_get {s t : ExtensionSet} (hlib : ∀ e ∈ t.entries, e.2.IsLibrary)
    (h : ∀ key, s.get key = t.get key) : (s == t) = true := by
  refine beq_of_entries hlib (Keyed.eq_of_find? s.sorted t.sorted fun key => ?_)
  have hkey := h key
  unfold get at hkey
  cases hfind : s.entries.find? key <;> cases hother : t.entries.find? key <;> simp_all

end ExtensionSet

end Rim
