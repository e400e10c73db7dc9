import Rim.Proofs.Record.Graph
import Rim.Proofs.SameData
import Rim.Proofs.Schema.Layout

/-!
# Equal records are checked and written alike

* `Alike`: two contents pass the same check, or fail it alike, and are written alike.
* `Part.Made`: the choices and extension sets that operations make.
* `Paired.sets`: the extension sets that stand in one place of two records.
* `Twins`: equal records whose parts have been made by operations, the sets in one place having one
  shape.
* `Record.encode_congr`: records are written alike if their fields and their own sets are.
* `Comid.alike` and its siblings: twins are alike.
-/

namespace Rim

/-! ## Contents -/

/-- Two contents pass the same check, or fail it alike, and are written alike, each with a table of
its own. -/
structure Alike {α : Type} (check : α → Validation) (w : Wire α) (types others : TypeTable)
    (a b : α) : Prop where
  validate : check a = check b
  encode : ∀ f, w.encode f types a = w.encode f others b

section

variable {α : Type} {check : α → Validation} {w : Wire α} {types others : TypeTable}

theorem rel_of_beq [BEq α] {P : α → α → Prop} {x y : Option α} (h : (x == y) = true)
    (hP : ∀ a b, x = some a → y = some b → (a == b) = true → P a b) : Option.Rel P x y := by
  cases x with
  | none =>
    cases y with
    | none => exact .none
    | some b => cases h
  | some a =>
    cases y with
    | none => cases h
    | some b => exact .some (hP a b rfl rfl h)

theorem forall₂_of_beq [BEq α] {P : α → α → Prop} {xs ys : List α} (h : (xs == ys) = true)
    (hP : ∀ a b, (a, b) ∈ xs.zip ys → (a == b) = true → P a b) : List.Forall₂ P xs ys := by
  induction xs generalizing ys with
  | nil =>
    cases ys with
    | nil => exact .nil
    | cons b others => cases h
  | cons a rest ih =>
    cases ys with
    | nil => cases h
    | cons b others =>
      rw [List.cons_beq_cons, Bool.and_eq_true] at h
      exact .cons (hP a b (by simp) h.1)
        (ih h.2 fun c d hcd => hP c d (List.mem_cons_of_mem _ hcd))

namespace Alike

theorem cases {x y : Option α} (h : Option.Rel (Alike check w types others) x y) :
    (x = none ∧ y = none) ∨
      ∃ a b, x = some a ∧ y = some b ∧ Alike check w types others a b := by
  cases h with
  | none => exact .inl ⟨rfl, rfl⟩
  | some h => exact .inr ⟨_, _, rfl, rfl, h⟩

theorem of_rel {P : α → α → Prop} {x y : Option α} (h : Option.Rel P x y)
    (hP : ∀ a b, P a b → Alike check w types others a b) :
    Option.Rel (Alike check w types others) x y := by
  cases h with
  | none => exact .none
  | some h => exact .some (hP _ _ h)

theorem map_encode {x y : Option α} (h : Option.Rel (Alike check w types others) x y) (f : Form) :
    x.map (w.encode f types) = y.map (w.encode f others) := by
  cases h with
  | none => rfl
  | some h => rw [Option.map_some, Option.map_some, h.encode f]

theorem mandatory {x y : Option α} (h : Option.Rel (Alike check w types others) x y)
    (name : String) : Validation.mandatory name check x = Validation.mandatory name check y := by
  cases h with
  | none => rfl
  | some h => rw [Validation.mandatory, Validation.mandatory, h.validate]

theorem isEmpty {xs ys : List α} (h : List.Forall₂ (Alike check w types others) xs ys) :
    xs.isEmpty = ys.isEmpty := by
  cases h <;> rfl

theorem list {xs ys : List α} (h : List.Forall₂ (Alike check w types others) xs ys)
    (name : String) : Validation.list name check xs = Validation.list name check ys := by
  have hfrom : ∀ i, Validation.listFrom name check i xs = Validation.listFrom name check i ys := by
    induction h with
    | nil => exact fun _ => rfl
    | cons hab _ ih =>
      intro i
      rw [Validation.listFrom, Validation.listFrom, hab.validate, ih]
  exact hfrom 0

theorem encode_list {xs ys : List α} (h : List.Forall₂ (Alike check w types others) xs ys)
    (f : Form) : (Wire.list w).encode f types xs = (Wire.list w).encode f others ys := by
  have hitems : xs.mapM (w.encode f types) = ys.mapM (w.encode f others) :=
    mapM_eq_mapM_of_forall₂ (h.imp fun _ _ hab => hab.encode f)
  show (xs.mapM (w.encode f types) >>= _) = (ys.mapM (w.encode f others) >>= _)
  rw [hitems]

theorem map_encode_list {xs ys : List α} (h : List.Forall₂ (Alike check w types others) xs ys)
    (f : Form) : (present? xs).map ((Wire.list w).encode f types) =
      (present? ys).map ((Wire.list w).encode f others) := by
  unfold present?
  rw [isEmpty h]
  split
  · rfl
  · exact congrArg some (encode_list h f)

end Alike

end

/-! ## Parts -/

/-- A choice that operations make, or an extension set that they make of library values. -/
def Part.Made : Part → Prop
  | .choice _ value => value.Made
  | .extensions _ set => set.Built ∧ ∀ e ∈ set.entries, e.2.IsLibrary
  | _ => True

/-- Choices that operations make and that are the same data are one choice. -/
theorem choice_eq_of_beq {family : Family} {x y : Option ChoiceValue} (h : (x == y) = true)
    (hx : ∀ value, x = some value → (Part.choice family value).Made)
    (hy : ∀ value, y = some value → (Part.choice family value).Made) : x = y := by
  cases rel_of_beq h fun a b ha hb hab =>
    ChoiceValue.eq_of_beq (hx a ha).canonical (hy b hb).canonical hab with
  | none => rfl
  | some hab => rw [hab]

/-- Sets that operations make and that are the same data hold the same entries, and with one shape
they are written alike. -/
theorem sets_alike {point : ExtensionPoint} {s t : ExtensionSet} (h : (s == t) = true)
    (hs : (Part.extensions point s).Made) (ht : (Part.extensions point t).Made)
    (hshape : s.ShapedAlike t) : s.entries = t.entries ∧ ∀ f, s.encode f = t.encode f := by
  have hentries := ExtensionSet.entries_eq_of_beq hs.2 ht.2 h
  exact ⟨hentries, ExtensionSet.encode_congr hentries hshape⟩

/-! ## Places -/

/-- Records whose extension sets can be gone through two at a time. -/
class Paired (R : Type) where
  /-- The extension sets that stand in one place of two records. -/
  sets : R → R → List (ExtensionSet × ExtensionSet)

namespace Paired

/-- The sets in one place of two lists of records, one by one. -/
def listSets {R : Type} [Paired R] (xs ys : List R) : List (ExtensionSet × ExtensionSet) :=
  (xs.zip ys).flatMap fun p => sets p.1 p.2

instance : Paired TagIdentity := ⟨fun _ _ => []⟩

instance : Paired Entity := ⟨fun x y => [(x.extensions, y.extensions)]⟩

instance : Paired Class := ⟨fun x y => [(x.extensions, y.extensions)]⟩

instance : Paired Environment := ⟨fun x y => listSets x.class_.toList y.class_.toList⟩

instance : Paired Version := ⟨fun _ _ => []⟩

instance : Paired Mval := ⟨fun x y => [(x.extensions, y.extensions)]⟩

instance : Paired Measurement := ⟨fun x y => listSets x.value.toList y.value.toList⟩

instance : Paired ValueTriple :=
  ⟨fun x y => sets x.environment y.environment ++ listSets x.measurements y.measurements⟩

instance : Paired Triples :=
  ⟨fun x y => listSets x.referenceValues y.referenceValues ++
    listSets x.endorsedValues y.endorsedValues ++ [(x.extensions, y.extensions)]⟩

instance : Paired Comid :=
  ⟨fun x y => listSets x.tagIdentity.toList y.tagIdentity.toList ++
    listSets x.entities y.entities ++ sets x.triples y.triples ++
    [(x.extensions, y.extensions)]⟩

instance : Paired Validity := ⟨fun _ _ => []⟩

instance : Paired UnsignedCorim :=
  ⟨fun x y => listSets x.tags y.tags ++ listSets x.entities y.entities ++
    [(x.extensions, y.extensions)]⟩

instance : Paired Signer := ⟨fun _ _ => []⟩

instance : Paired Meta := ⟨fun _ _ => []⟩

instance : (k : RecordKind) → Paired k.Carrier
  | .comid => inferInstanceAs (Paired Comid)
  | .tagIdentity => inferInstanceAs (Paired TagIdentity)
  | .entity => inferInstanceAs (Paired Entity)
  | .triples => inferInstanceAs (Paired Triples)
  | .environment => inferInstanceAs (Paired Environment)
  | .class_ => inferInstanceAs (Paired Class)
  | .measurement => inferInstanceAs (Paired Measurement)
  | .mval => inferInstanceAs (Paired Mval)
  | .version => inferInstanceAs (Paired Version)
  | .unsignedCorim => inferInstanceAs (Paired UnsignedCorim)
  | .meta_ => inferInstanceAs (Paired Meta)
  | .signer => inferInstanceAs (Paired Signer)
  | .validity => inferInstanceAs (Paired Validity)

end Paired

namespace Paired

variable {R : Type} [Paired R]

theorem sets_subset_listSets {xs ys : List R} {a b : R} (h : (a, b) ∈ xs.zip ys) :
    sets a b ⊆ listSets xs ys := fun _ hp => List.mem_flatMap.2 ⟨(a, b), h, hp⟩

theorem sets_subset_toList {x y : Option R} {a b : R} (ha : x = some a) (hb : y = some b) :
    sets a b ⊆ listSets x.toList y.toList := by
  rw [ha, hb]
  exact sets_subset_listSets (List.mem_singleton_self _)

end Paired

/-- Equal records whose parts have been made by operations. Where both have an extension set, and
the first holds anything in it, the two sets have one shape. -/
structure Twins {R : Type} [BEq R] [Graph R] [Paired R] (x y : R) : Prop where
  beq : (x == y) = true
  left : ∀ p ∈ Graph.parts x, p.Made
  right : ∀ p ∈ Graph.parts y, p.Made
  shaped : ∀ p ∈ Paired.sets x y, p.1.ShapedAlike p.2

namespace Twins

variable {R S : Type} [BEq R] [Graph R] [Paired R] [BEq S] [Graph S] [Paired S] {x y : R}

/-- Equal records in one place of twins are twins. -/
theorem inner (h : Twins x y) {a b : S} (hbeq : (a == b) = true)
    (hleft : Graph.parts a ⊆ Graph.parts x) (hright : Graph.parts b ⊆ Graph.parts y)
    (hsets : Paired.sets a b ⊆ Paired.sets x y) : Twins a b where
  beq := hbeq
  left p hp := h.left p (hleft hp)
  right p hp := h.right p (hright hp)
  shaped p hp := h.shaped p (hsets hp)

theorem rel (h : Twins x y) {a b : Option S} (hbeq : (a == b) = true)
    (hleft : ∀ c, a = some c → Graph.parts c ⊆ Graph.parts x)
    (hright : ∀ c, b = some c → Graph.parts c ⊆ Graph.parts y)
    (hsets : Paired.listSets a.toList b.toList ⊆ Paired.sets x y) : Option.Rel Twins a b :=
  rel_of_beq hbeq fun c d hc hd hcd => h.inner hcd (hleft c hc) (hright d hd)
    (List.Subset.trans (Paired.sets_subset_toList hc hd) hsets)

theorem forall₂ (h : Twins x y) {as bs : List S} (hbeq : (as == bs) = true)
    (hleft : ∀ c ∈ as, Graph.parts c ⊆ Graph.parts x)
    (hright : ∀ c ∈ bs, Graph.parts c ⊆ Graph.parts y)
    (hsets : Paired.listSets as bs ⊆ Paired.sets x y) : List.Forall₂ Twins as bs :=
  forall₂_of_beq hbeq fun c d hmem hcd => h.inner hcd (hleft c (List.of_mem_zip hmem).1)
    (hright d (List.of_mem_zip hmem).2)
    (List.Subset.trans (Paired.sets_subset_listSets hmem) hsets)

end Twins

/-! ## Records -/

/-- Records are written alike if their fields and their own sets are. -/
theorem Record.encode_congr {R : Type} [Record R] {f : Form} {types others : TypeTable} {x y : R}
    (hfields : ∀ z ∈ fields, z.encode f types x = z.encode f others y)
    (hset : (ownSet x).encode f = (ownSet y).encode f) :
    encode f types x = encode f others y := by
  have hfixed : ∀ zs : List (Field R), (∀ z ∈ zs, z.encode f types x = z.encode f others y) →
      encodeFields f types x zs = encodeFields f others y zs := by
    intro zs hzs
    induction zs with
    | nil => rfl
    | cons z rest ih =>
      obtain ⟨hz, hrest⟩ := List.forall_mem_cons.1 hzs
      rw [encodeFields, encodeFields, hz, ih hrest]
  unfold encode
  rw [hfixed _ hfields, encodeExtensions_eq, encodeExtensions_eq, hset]

@[simp] theorem Coding.toWire_encode {α : Type} (c : Coding α) (f : Form) (types : TypeTable) :
    c.toWire.encode f types = c.encode f := rfl

section

variable {types others : TypeTable}

theorem Wire.encode_choice_congr (htypes : types.Agree others) (family : Family) (f : Form) :
    (choice family).encode f types = (choice family).encode f others :=
  funext (Choice.encode_congr htypes family f)

theorem TagIdentity.alike (htypes : types.Agree others) {x y : TagIdentity} (h : Twins x y) :
    Alike validate (Record.wire TagIdentity) types others x y := by
  have hbeq : (x.tagId == y.tagId && x.tagVersion == y.tagVersion) = true := h.beq
  obtain ⟨hid, hversion⟩ := Bool.and_eq_true_iff.1 hbeq
  have hid := choice_eq_of_beq hid ((forall_parts x).1 h.left) ((forall_parts y).1 h.right)
  refine ⟨by rw [validate, validate, hid], fun f => Record.encode_congr ?_ rfl⟩
  simp [Record.fields, fields, Field.of, Field.encode, hid, beq_iff_eq.1 hversion,
    Wire.encode_choice_congr htypes]

theorem Entity.alike (htypes : types.Agree others) {x y : Entity} (h : Twins x y) :
    Alike validate (Record.wire Entity) types others x y := by
  obtain ⟨hname, hregId, hroles, hset⟩ := beq_iff.1 h.beq
  have hleft := (forall_parts x).1 h.left
  have hright := (forall_parts y).1 h.right
  have hname := choice_eq_of_beq hname hleft.1 hright.1
  obtain ⟨hentries, hset⟩ :=
    sets_alike hset hleft.2 hright.2 (h.shaped _ (List.mem_singleton_self _))
  refine ⟨?_, fun f => Record.encode_congr ?_ (hset f)⟩
  · simp only [validate, ExtensionSet.validate, hname, hregId, hroles, hentries]
  · simp [Record.fields, fields, Field.of, Field.encode, hname, hregId, hroles,
      Wire.encode_choice_congr htypes]

theorem Class.alike (htypes : types.Agree others) {x y : Class} (h : Twins x y) :
    Alike validate (Record.wire Class) types others x y := by
  obtain ⟨hid, hvendor, hmodel, hlayer, hindex, hset⟩ := beq_iff.1 h.beq
  have hleft := (forall_parts x).1 h.left
  have hright := (forall_parts y).1 h.right
  have hid := choice_eq_of_beq hid hleft.1 hright.1
  obtain ⟨hentries, hset⟩ :=
    sets_alike hset hleft.2 hright.2 (h.shaped _ (List.mem_singleton_self _))
  refine ⟨?_, fun f => Record.encode_congr ?_ (hset f)⟩
  · simp only [validate, hasField, ExtensionSet.isEmpty, ExtensionSet.validate, hid, hvendor,
      hmodel, hlayer, hindex, hentries]
  · simp [Record.fields, fields, Field.of, Field.encode, hid, hvendor, hmodel, hlayer, hindex,
      Wire.encode_choice_congr htypes]

theorem Environment.alike (htypes : types.Agree others) {x y : Environment} (h : Twins x y) :
    Alike validate (Record.wire Environment) types others x y := by
  have hclass := Alike.of_rel (h.rel h.beq (fun _ => parts_class) (fun _ => parts_class)
    (List.Subset.refl _)) fun a b hab => Class.alike htypes hab
  refine ⟨Alike.mandatory hclass _, fun f => Record.encode_congr ?_ rfl⟩
  simp [Record.fields, fields, Field.of, Field.encode, Alike.map_encode hclass]

theorem Version.alike (v : Version) : Alike validate (Record.wire Version) types others v v := by
  refine ⟨rfl, fun f => Record.encode_congr ?_ rfl⟩
  simp [Record.fields, fields, Field.of, Field.encode]

theorem Mval.alike {x y : Mval} (h : Twins x y) :
    Alike validate (Record.wire Mval) types others x y := by
  obtain ⟨hversion, hsvn, hdigests, hserial, hname, hset⟩ := beq_iff.1 h.beq
  obtain ⟨hentries, hset⟩ := sets_alike hset ((forall_parts x).1 h.left)
    ((forall_parts y).1 h.right) (h.shaped _ (List.mem_singleton_self _))
  refine ⟨?_, fun f => Record.encode_congr ?_ (hset f)⟩
  · simp only [validate, hasField, ExtensionSet.isEmpty, ExtensionSet.validate, hversion, hsvn,
      hdigests, hserial, hname, hentries]
  · have hwire : (Record.wire Version).encode f types = (Record.wire Version).encode f others :=
      funext fun v => (Version.alike v).encode f
    simp [Record.fields, fields, Field.of, Field.encode, hversion, hsvn, hdigests, hserial, hname,
      hwire]

theorem Measurement.alike {x y : Measurement} (h : Twins x y) :
    Alike validate (Record.wire Measurement) types others x y := by
  have hvalue : Option.Rel (Alike Mval.validate (Record.wire Mval) types others) x.value y.value :=
    Alike.of_rel (h.rel h.beq (fun _ => parts_value) (fun _ => parts_value)
      (List.Subset.refl _)) fun a b hab => Mval.alike hab
  refine ⟨Alike.mandatory hvalue _, fun f => Record.encode_congr ?_ rfl⟩
  simp [Record.fields, fields, Field.of, Field.encode, Alike.map_encode hvalue]

theorem ValueTriple.alike (htypes : types.Agree others) {x y : ValueTriple} (h : Twins x y) :
    Alike validate wire types others x y := by
  obtain ⟨henvironment, hmeasurements⟩ := beq_iff.1 h.beq
  have henvironment := Environment.alike htypes (h.inner henvironment (parts_environment x)
    (parts_environment y) (List.subset_append_left _ _))
  have hmeasurements : List.Forall₂ (Alike Measurement.validate (Record.wire Measurement) types
      others) x.measurements y.measurements :=
    (h.forall₂ hmeasurements (fun _ => parts_measurement) (fun _ => parts_measurement)
      (List.subset_append_right _ _)).imp fun a b hab => Measurement.alike hab
  refine ⟨?_, fun f => ?_⟩
  · simp only [validate, Alike.isEmpty hmeasurements, henvironment.validate,
      Alike.list hmeasurements]
  · have hparts : encodeParts f types x = encodeParts f others y := by
      simp only [encodeParts, henvironment.encode f, Alike.encode_list hmeasurements f]
    cases f <;> simp only [wire, hparts]

theorem Triples.alike (htypes : types.Agree others) {x y : Triples} (h : Twins x y) :
    Alike validate (Record.wire Triples) types others x y ∧ x.isEmpty = y.isEmpty := by
  obtain ⟨hreference, hendorsed, hset⟩ := beq_iff.1 h.beq
  have hreference := (h.forall₂ hreference (fun _ => parts_referenceValue)
    (fun _ => parts_referenceValue) (List.subset_append_of_subset_left _
      (List.subset_append_left _ _))).imp fun a b hab => ValueTriple.alike htypes hab
  have hendorsed := (h.forall₂ hendorsed (fun _ => parts_endorsedValue)
    (fun _ => parts_endorsedValue) (List.subset_append_of_subset_left _
      (List.subset_append_right _ _))).imp fun a b hab => ValueTriple.alike htypes hab
  obtain ⟨hentries, hset⟩ := sets_alike hset ((forall_parts x).1 h.left).2.2
    ((forall_parts y).1 h.right).2.2
    (h.shaped _ (List.mem_append_right _ (List.mem_singleton_self _)))
  have hempty : x.isEmpty = y.isEmpty := by
    simp only [isEmpty, ExtensionSet.isEmpty, Alike.isEmpty hreference, Alike.isEmpty hendorsed,
      hentries]
  refine ⟨⟨?_, fun f => Record.encode_congr ?_ (hset f)⟩, hempty⟩
  · simp only [validate, hempty, ExtensionSet.validate, Alike.list hreference,
      Alike.list hendorsed, hentries]
  · simp [Record.fields, fields, Field.of, Field.encode, listWire,
      Alike.map_encode_list hreference, Alike.map_encode_list hendorsed]

theorem Comid.alike (htypes : types.Agree others) {x y : Comid} (h : Twins x y) :
    Alike validate (Record.wire Comid) types others x y := by
  obtain ⟨hlanguage, hidentity, hentities, htriples, hset⟩ := beq_iff.1 h.beq
  have hidentity := Alike.of_rel (h.rel hidentity (fun _ => parts_tagIdentity)
    (fun _ => parts_tagIdentity) (List.subset_append_of_subset_left _
      (List.subset_append_of_subset_left _ (List.subset_append_left _ _))))
    fun a b hab => TagIdentity.alike htypes hab
  have hentities := (h.forall₂ hentities (fun _ => parts_entity) (fun _ => parts_entity)
    (List.subset_append_of_subset_left _ (List.subset_append_of_subset_left _
      (List.subset_append_right _ _)))).imp fun a b hab => Entity.alike htypes hab
  obtain ⟨htriples, hempty⟩ := Triples.alike htypes (h.inner htriples (parts_triples x)
    (parts_triples y) (List.subset_append_of_subset_left _ (List.subset_append_right _ _)))
  obtain ⟨hentries, hset⟩ := sets_alike hset ((forall_parts x).1 h.left).2.2.2
    ((forall_parts y).1 h.right).2.2.2
    (h.shaped _ (List.mem_append_right _ (List.mem_singleton_self _)))
  refine ⟨?_, fun f => Record.encode_congr ?_ (hset f)⟩
  · rcases Alike.cases hidentity with ⟨ha, hb⟩ | ⟨a, b, ha, hb, hab⟩
    · simp only [validate, ha, hb]
    · simp only [validate, ha, hb, hempty, hlanguage, hab.validate, Alike.list hentities,
        htriples.validate, ExtensionSet.validate, hentries]
  · have htriples : (if x.triples.isEmpty then none else some x.triples).map
        ((Record.wire Triples).encode f types) =
        (if y.triples.isEmpty then none else some y.triples).map
          ((Record.wire Triples).encode f others) := by
      rw [hempty]
      split
      · rfl
      · exact congrArg some (htriples.encode f)
    simp [Record.fields, fields, Field.of, Field.encode, hlanguage, Alike.map_encode hidentity,
      Alike.map_encode_list hentities, htriples]

/-- Tags are alike inside manifests if they are on their own. -/
theorem Comid.alike_embedded {x y : Comid}
    (h : Alike validate (Record.wire Comid) types others x y) :
    Alike validate embedded types others x y := by
  refine ⟨h.validate, fun f => ?_⟩
  have hencode : Record.encode f types x = Record.encode f others y := h.encode f
  cases f <;> simp only [embedded, hencode]

theorem Validity.alike (w : Validity) : Alike validate (Record.wire Validity) types others w w := by
  refine ⟨rfl, fun f => Record.encode_congr ?_ rfl⟩
  simp [Record.fields, fields, Field.of, Field.encode]

theorem UnsignedCorim.alike (htypes : types.Agree others) {x y : UnsignedCorim} (h : Twins x y) :
    Alike validate (Record.wire UnsignedCorim) types others x y := by
  obtain ⟨hid, htags, hprofile, hwindow, hentities, hset⟩ := beq_iff.1 h.beq
  have hleft := (forall_parts x).1 h.left
  have hright := (forall_parts y).1 h.right
  have hid := choice_eq_of_beq hid hleft.1 hright.1
  have htags := (h.forall₂ htags (fun _ hc p hp => x.sealedParts_subset (sealedParts_tag hc hp))
    (fun _ hc p hp => y.sealedParts_subset (sealedParts_tag hc hp))
    (List.subset_append_of_subset_left _ (List.subset_append_left _ _))).imp fun a b hab =>
      Comid.alike_embedded (Comid.alike htypes hab)
  have hentities := (h.forall₂ hentities (fun _ => parts_entity) (fun _ => parts_entity)
    (List.subset_append_of_subset_left _ (List.subset_append_right _ _))).imp fun a b hab =>
      Entity.alike htypes hab
  obtain ⟨hentries, hset⟩ := sets_alike hset hleft.2.2.2.2.2 hright.2.2.2.2.2
    (h.shaped _ (List.mem_append_right _ (List.mem_singleton_self _)))
  refine ⟨?_, fun f => Record.encode_congr ?_ (hset f)⟩
  · simp only [validate, hid, Alike.isEmpty htags, Alike.list htags, hwindow,
      Alike.list hentities, ExtensionSet.validate, hentries]
  · have hwire : (Record.wire Validity).encode f types = (Record.wire Validity).encode f others :=
      funext fun w => (Validity.alike w).encode f
    simp [Record.fields, fields, Field.of, Field.encode, hid, Wire.encode_choice_congr htypes,
      Alike.map_encode_list htags, hprofile, hwindow, hwire, Alike.map_encode_list hentities]

theorem Signer.alike (s : Signer) : Alike validate (Record.wire Signer) types others s s := by
  refine ⟨rfl, fun f => Record.encode_congr ?_ rfl⟩
  simp [Record.fields, fields, Field.of, Field.encode]

theorem Meta.alike (m : Meta) : Alike validate (Record.wire Meta) types others m m := by
  refine ⟨rfl, fun f => Record.encode_congr ?_ rfl⟩
  have hsigner : (Record.wire Signer).encode f types = (Record.wire Signer).encode f others :=
    funext fun s => (Signer.alike s).encode f
  have hwindow : (Record.wire Validity).encode f types = (Record.wire Validity).encode f others :=
    funext fun w => (Validity.alike w).encode f
  simp [Record.fields, fields, Field.of, Field.encode, hsigner, hwindow]

/-- Twins are checked and written alike. -/
theorem RecordKind.alike (k : RecordKind) (htypes : types.Agree others) {x y : k.Carrier}
    (h : Twins x y) : Alike Record.validate (Record.wire k.Carrier) types others x y := by
  cases k with
  | comid => exact Comid.alike htypes h
  | tagIdentity => exact TagIdentity.alike htypes h
  | entity => exact Entity.alike htypes h
  | triples => exact (Triples.alike htypes h).1
  | environment => exact Environment.alike htypes h
  | class_ => exact Class.alike htypes h
  | measurement => exact Measurement.alike h
  | mval => exact Mval.alike h
  | version =>
    obtain rfl : x = y := eq_of_beq (α := Version) h.beq
    exact Version.alike x
  | unsignedCorim => exact UnsignedCorim.alike htypes h
  | meta_ =>
    obtain rfl : x = y := eq_of_beq (α := Meta) h.beq
    exact Meta.alike x
  | signer =>
    obtain rfl : x = y := eq_of_beq (α := Signer) h.beq
    exact Signer.alike x
  | validity =>
    obtain rfl : x = y := eq_of_beq (α := Validity) h.beq
    exact Validity.alike x

end

end Rim
