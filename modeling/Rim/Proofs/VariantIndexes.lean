import Mathlib.Data.List.Induction
import Mathlib.Logic.Function.Basic
import Rim.Proofs.Setup

/-!
# The two indexes of a family

A family finds its variants by type tag and by discriminator. Registration keeps the two ways in
step.

* `FamilyIndex`: the two indexes as tables of their own, of which the second leads to the first.
* `TypeTable.index`: the indexes of a family of a table of variants.
* `TypeTable.Distinct.resolveTypeTag_index` and its siblings: over a distinct table the indexes find
  what the table finds, and take what it takes.
* `FamilyIndex.Inverse`: each index undoes the other.
* `Registry.SameFamily`: two registries do the same in one family.
* `Registry.VariantsInStep`, `variants_stay_in_step`: what is known of the variants after any setup.
-/

namespace Rim

/-! ## Indexes -/

/-- The variants of a family, by type tag and by discriminator. -/
structure FamilyIndex where
  byTypeTag : String → Option (Discriminator × Factory)
  byDiscriminator : Discriminator → Option String

namespace FamilyIndex

def empty : FamilyIndex := ⟨fun _ => none, fun _ => none⟩

/-- Puts a variant under both its keys, in the place of any other. -/
def insert (index : FamilyIndex) (v : Variant) : FamilyIndex where
  byTypeTag := Function.update index.byTypeTag v.typeTag (some (v.discriminator, v.factory))
  byDiscriminator := Function.update index.byDiscriminator v.discriminator (some v.typeTag)

/-- The variant of a type tag. -/
def resolveTypeTag (index : FamilyIndex) (family : Family) (typeTag : String) :
    Except ChoiceError Variant :=
  match index.byTypeTag typeTag with
  | some (discriminator, factory) => .ok ⟨family, typeTag, discriminator, factory⟩
  | none => .error (.unknownVariant family typeTag)

/-- The variant of a discriminator, which is looked up under the type tag found. -/
def resolveDiscriminator (index : FamilyIndex) (family : Family) (discriminator : Discriminator) :
    Except ChoiceError Variant :=
  let found := do
    let typeTag ← index.byDiscriminator discriminator
    let (_, factory) ← index.byTypeTag typeTag
    return ⟨family, typeTag, discriminator, factory⟩
  match found with
  | some v => .ok v
  | none => .error (.unknownVariant family discriminator.describe)

/-- Adds a variant to both indexes, unless one of its keys is in use. -/
def register (index : FamilyIndex) (family : Family) (discriminator : Discriminator)
    (factory : Factory) : Except TableError (String × FamilyIndex) :=
  match factory.probe with
  | .error e => .error (.probeFailed family e)
  | .ok zero =>
    if (index.byTypeTag zero.typeTag).isSome then .error (.duplicateTypeTag family zero.typeTag)
    else if (index.byDiscriminator discriminator).isSome then
      .error (.duplicateDiscriminator family discriminator)
    else .ok (zero.typeTag, index.insert ⟨family, zero.typeTag, discriminator, factory⟩)

/-- Each index undoes the other. -/
structure Inverse (index : FamilyIndex) : Prop where
  typeTags : ∀ typeTag discriminator factory,
    index.byTypeTag typeTag = some (discriminator, factory) →
    index.byDiscriminator discriminator = some typeTag
  discriminators : ∀ discriminator typeTag, index.byDiscriminator discriminator = some typeTag →
    ∃ factory, index.byTypeTag typeTag = some (discriminator, factory)

theorem inverse_empty : empty.Inverse := ⟨nofun, nofun⟩

/-- A variant with new keys leaves the indexes inverse. An old type tag would leave its former
discriminator behind, and an old discriminator its former type tag. -/
theorem Inverse.insert {index : FamilyIndex} (h : index.Inverse) {v : Variant}
    (htag : index.byTypeTag v.typeTag = none)
    (hdisc : index.byDiscriminator v.discriminator = none) : (index.insert v).Inverse := by
  constructor
  · intro typeTag discriminator factory hfound
    by_cases hkey : typeTag = v.typeTag
    · subst hkey
      obtain ⟨rfl, -⟩ : v.discriminator = discriminator ∧ v.factory = factory := by
        simpa [FamilyIndex.insert] using hfound
      simp [FamilyIndex.insert]
    · have hold : index.byTypeTag typeTag = some (discriminator, factory) := by
        simpa [FamilyIndex.insert, hkey] using hfound
      have hback := h.typeTags _ _ _ hold
      have hother : discriminator ≠ v.discriminator := by
        rintro rfl
        rw [hdisc] at hback
        cases hback
      simpa [FamilyIndex.insert, hother] using hback
  · intro discriminator typeTag hfound
    by_cases hkey : discriminator = v.discriminator
    · subst hkey
      obtain rfl : v.typeTag = typeTag := by simpa [FamilyIndex.insert] using hfound
      exact ⟨v.factory, by simp [FamilyIndex.insert]⟩
    · have hold : index.byDiscriminator discriminator = some typeTag := by
        simpa [FamilyIndex.insert, hkey] using hfound
      obtain ⟨factory, hback⟩ := h.discriminators _ _ hold
      have hother : typeTag ≠ v.typeTag := by
        rintro rfl
        rw [htag] at hback
        cases hback
      exact ⟨factory, by simpa [FamilyIndex.insert, hother] using hback⟩

end FamilyIndex

/-! ## The indexes of a table -/

namespace TypeTable

variable {types : TypeTable} {family : Family}

/-- The variants of a family, the oldest first. -/
def ofFamily (types : TypeTable) (family : Family) : List Variant :=
  List.filter (fun v => v.family = family) types

/-- The indexes of a family: its variants are inserted one after the other. -/
def index (types : TypeTable) (family : Family) : FamilyIndex :=
  (types.ofFamily family).foldl .insert .empty

theorem ofFamily_append_singleton (types : TypeTable) (v : Variant) (family : Family) :
    ofFamily (types ++ [v]) family =
      if v.family = family then types.ofFamily family ++ [v] else types.ofFamily family := by
  unfold ofFamily
  by_cases h : v.family = family <;> simp [h]

/-- A variant is inserted into the indexes of its family, and all others stay. -/
theorem index_append_singleton (types : TypeTable) (v : Variant) (family : Family) :
    index (types ++ [v]) family =
      if v.family = family then (types.index family).insert v else types.index family := by
  rw [index, ofFamily_append_singleton]
  split
  · exact List.foldl_append
  · rfl

/-- Only the variants of the family are looked at. -/
theorem byTypeTag?_eq_ofFamily (types : TypeTable) (family : Family) (typeTag : String) :
    types.byTypeTag? family typeTag =
      (types.ofFamily family).find? fun v => v.typeTag = typeTag := by
  simp [ofFamily, byTypeTag?, List.find?_filter]

theorem byDiscriminator?_eq_ofFamily (types : TypeTable) (family : Family)
    (discriminator : Discriminator) :
    types.byDiscriminator? family discriminator =
      (types.ofFamily family).find? fun v => v.discriminator = discriminator := by
  simp [ofFamily, byDiscriminator?, List.find?_filter]

theorem Distinct.of_append {more : TypeTable} (hd : Distinct (types ++ more)) : types.Distinct := by
  constructor
  · exact hd.typeTags.sublist ((List.sublist_append_left types more).map _)
  · exact hd.discriminators.sublist ((List.sublist_append_left types more).map _)

/-- The last variant of a distinct table has new keys. -/
theorem Distinct.byTypeTag?_of_append {v : Variant} (hd : Distinct (types ++ [v])) :
    types.byTypeTag? v.family v.typeTag = none := by
  refine List.find?_eq_none.2 fun w hw => ?_
  have hnodup := hd.typeTags
  rw [List.map_append, List.nodup_append] at hnodup
  have hne := hnodup.2.2 _ (List.mem_map_of_mem hw) (v.family, v.typeTag) (by simp)
  simpa using hne

theorem Distinct.byDiscriminator?_of_append {v : Variant} (hd : Distinct (types ++ [v])) :
    types.byDiscriminator? v.family v.discriminator = none := by
  refine List.find?_eq_none.2 fun w hw => ?_
  have hnodup := hd.discriminators
  rw [List.map_append, List.nodup_append] at hnodup
  have hne := hnodup.2.2 _ (List.mem_map_of_mem hw) (v.family, v.discriminator) (by simp)
  simpa using hne

/-- Looking up a type tag in the index is looking it up in the table. -/
theorem Distinct.byTypeTag_index (hd : types.Distinct) (family : Family) (typeTag : String) :
    (types.index family).byTypeTag typeTag =
      (types.byTypeTag? family typeTag).map fun v => (v.discriminator, v.factory) := by
  induction types using List.reverseRecOn with
  | nil => rfl
  | append_singleton types v ih =>
    have hfree := hd.byTypeTag?_of_append
    rw [index_append_singleton, byTypeTag?, List.find?_append, ← byTypeTag?]
    by_cases hfamily : v.family = family
    · subst hfamily
      by_cases hkey : typeTag = v.typeTag
      · subst hkey
        simp [FamilyIndex.insert, hfree]
      · simp [FamilyIndex.insert, hkey, ih hd.of_append, Ne.symm hkey]
    · simp [hfamily, ih hd.of_append]

/-- Looking up a discriminator in the index is looking it up in the table. -/
theorem Distinct.byDiscriminator_index (hd : types.Distinct) (family : Family)
    (discriminator : Discriminator) :
    (types.index family).byDiscriminator discriminator =
      (types.byDiscriminator? family discriminator).map (·.typeTag) := by
  induction types using List.reverseRecOn with
  | nil => rfl
  | append_singleton types v ih =>
    have hfree := hd.byDiscriminator?_of_append
    rw [index_append_singleton, byDiscriminator?, List.find?_append, ← byDiscriminator?]
    by_cases hfamily : v.family = family
    · subst hfamily
      by_cases hkey : discriminator = v.discriminator
      · subst hkey
        simp [FamilyIndex.insert, hfree]
      · simp [FamilyIndex.insert, hkey, ih hd.of_append, Ne.symm hkey]
    · simp [hfamily, ih hd.of_append]

/-- The indexes of a distinct table are inverse: each variant was inserted with new keys. -/
theorem Distinct.inverse_index (hd : types.Distinct) (family : Family) :
    (types.index family).Inverse := by
  induction types using List.reverseRecOn with
  | nil => exact FamilyIndex.inverse_empty
  | append_singleton types v ih =>
    rw [index_append_singleton]
    split
    next hfamily =>
      subst hfamily
      refine (ih hd.of_append).insert ?_ ?_
      · rw [hd.of_append.byTypeTag_index, hd.byTypeTag?_of_append]
        rfl
      · rw [hd.of_append.byDiscriminator_index, hd.byDiscriminator?_of_append]
        rfl
    next => exact ih hd.of_append

theorem mem_of_byDiscriminator? {discriminator : Discriminator} {v : Variant}
    (h : types.byDiscriminator? family discriminator = some v) :
    v ∈ types ∧ v.family = family ∧ v.discriminator = discriminator :=
  ⟨List.mem_of_find?_eq_some h, by simpa using List.find?_some h⟩

/-- A variant that is found by its discriminator is found by its type tag. -/
theorem Distinct.byTypeTag?_of_byDiscriminator? (hd : types.Distinct)
    {discriminator : Discriminator} {v : Variant}
    (h : types.byDiscriminator? family discriminator = some v) :
    types.byTypeTag? family v.typeTag = some v := by
  obtain ⟨hv, rfl, -⟩ := mem_of_byDiscriminator? h
  exact hd.byTypeTag?_of_mem hv

theorem Distinct.resolveTypeTag_index (hd : types.Distinct) (family : Family) (typeTag : String) :
    (types.index family).resolveTypeTag family typeTag = types.resolveTypeTag family typeTag := by
  rw [FamilyIndex.resolveTypeTag, hd.byTypeTag_index, resolveTypeTag]
  cases hv : types.byTypeTag? family typeTag with
  | none => rfl
  | some v =>
    obtain ⟨-, rfl, rfl⟩ := mem_of_byTypeTag? hv
    rfl

/-- The index of discriminators leads through the other index to the variant of the table. -/
theorem Distinct.resolveDiscriminator_index (hd : types.Distinct) (family : Family)
    (discriminator : Discriminator) :
    (types.index family).resolveDiscriminator family discriminator =
      types.resolveDiscriminator family discriminator := by
  rw [FamilyIndex.resolveDiscriminator, hd.byDiscriminator_index, resolveDiscriminator]
  cases hv : types.byDiscriminator? family discriminator with
  | none => rfl
  | some v =>
    have htag := hd.byTypeTag?_of_byDiscriminator? hv
    obtain ⟨-, rfl, rfl⟩ := mem_of_byDiscriminator? hv
    have hindex :
        (types.index v.family).byTypeTag v.typeTag = some (v.discriminator, v.factory) := by
      rw [hd.byTypeTag_index, htag]
      rfl
    simp [hindex]

/-- The type tag under which the table takes a variant. Everything is checked before anything is
added. -/
def verdict (types : TypeTable) (family : Family) (discriminator : Discriminator)
    (factory : Factory) : Except TableError String :=
  match factory.probe with
  | .error e => .error (.probeFailed family e)
  | .ok zero =>
    if (types.byTypeTag? family zero.typeTag).isSome then
      .error (.duplicateTypeTag family zero.typeTag)
    else if (types.byDiscriminator? family discriminator).isSome then
      .error (.duplicateDiscriminator family discriminator)
    else .ok zero.typeTag

theorem register_eq (types : TypeTable) (family : Family) (discriminator : Discriminator)
    (factory : Factory) :
    types.register family discriminator factory =
      (types.verdict family discriminator factory).map fun typeTag =>
        (typeTag, types ++ [⟨family, typeTag, discriminator, factory⟩]) := by
  unfold register verdict
  cases factory.probe with
  | error e => rfl
  | ok zero =>
    dsimp only
    by_cases htag : (types.byTypeTag? family zero.typeTag).isSome
    · rw [if_pos htag, if_pos htag]
      rfl
    · rw [if_neg htag, if_neg htag]
      by_cases hdisc : (types.byDiscriminator? family discriminator).isSome
      · rw [if_pos hdisc, if_pos hdisc]
        rfl
      · rw [if_neg hdisc, if_neg hdisc]
        rfl

/-- The indexes take what the table takes, and refuse the rest for the same reason. -/
theorem Distinct.register_index (hd : types.Distinct) (family : Family)
    (discriminator : Discriminator) (factory : Factory) :
    (types.index family).register family discriminator factory =
      (types.register family discriminator factory).map fun (typeTag, table) =>
        (typeTag, table.index family) := by
  rw [register_eq]
  unfold FamilyIndex.register verdict
  cases factory.probe with
  | error e => rfl
  | ok zero =>
    dsimp only
    rw [hd.byTypeTag_index, hd.byDiscriminator_index, Option.isSome_map, Option.isSome_map]
    split
    · rfl
    · split
      · rfl
      · show _ = Except.ok (_, index (types ++ [_]) family)
        rw [index_append_singleton, if_pos rfl]

/-- The indexes of a family stand for the table: they undo each other, and what is looked up in them
and added to them is looked up in the table and added to it. -/
structure Indexed (types : TypeTable) (family : Family) : Prop where
  inverse : (types.index family).Inverse
  typeTags : ∀ typeTag,
    (types.index family).resolveTypeTag family typeTag = types.resolveTypeTag family typeTag
  discriminators : ∀ discriminator,
    (types.index family).resolveDiscriminator family discriminator =
      types.resolveDiscriminator family discriminator
  registers : ∀ discriminator factory,
    (types.index family).register family discriminator factory =
      (types.register family discriminator factory).map fun (typeTag, table) =>
        (typeTag, table.index family)

theorem Distinct.indexed (hd : types.Distinct) (family : Family) : types.Indexed family :=
  ⟨hd.inverse_index family, hd.resolveTypeTag_index family, hd.resolveDiscriminator_index family,
    hd.register_index family⟩

/-- What a table takes into a family depends on the variants of the family alone. -/
theorem verdict_congr {types' : TypeTable} (h : types.ofFamily family = types'.ofFamily family)
    (discriminator : Discriminator) (factory : Factory) :
    types.verdict family discriminator factory = types'.verdict family discriminator factory := by
  simp only [verdict, byTypeTag?_eq_ofFamily, byDiscriminator?_eq_ofFamily, h]

theorem resolveTypeTag_eq_ok_iff {typeTag : String} {v : Variant} :
    types.resolveTypeTag family typeTag = .ok v ↔ types.byTypeTag? family typeTag = some v := by
  unfold resolveTypeTag
  split <;> simp_all

theorem resolveDiscriminator_eq_ok_iff {discriminator : Discriminator} {v : Variant} :
    types.resolveDiscriminator family discriminator = .ok v ↔
      types.byDiscriminator? family discriminator = some v := by
  unfold resolveDiscriminator
  split <;> simp_all

/-- The factory of every variant builds a zero value, which reports the type tag of the variant. -/
def Reported (types : TypeTable) : Prop :=
  ∀ v ∈ types, ∃ zero, v.factory.build none = .ok zero ∧ zero.typeTag = v.typeTag

theorem reported_builtin : builtin.Reported := by
  simp only [Reported, builtin, List.forall_mem_cons]
  exact ⟨⟨_, rfl, rfl⟩, ⟨_, rfl, rfl⟩, ⟨_, rfl, rfl⟩, ⟨_, rfl, rfl⟩, ⟨_, rfl, rfl⟩, ⟨_, rfl, rfl⟩,
    ⟨_, rfl, rfl⟩, ⟨_, rfl, rfl⟩, List.forall_mem_nil _⟩

theorem Reported.register (h : types.Reported) {discriminator : Discriminator} {factory : Factory}
    (hpure : factory.IsPure) {typeTag : String} {table : TypeTable}
    (hregister : types.register family discriminator factory = .ok (typeTag, table)) :
    table.Reported := by
  obtain ⟨⟨zero, hprobe, htag⟩, -, -, rfl⟩ := register_cases hregister
  intro v hv
  rcases List.mem_append.1 hv with hv | hv
  · exact h v hv
  · rw [List.mem_singleton.1 hv]
    exact ⟨zero, hpure ▸ hprobe, htag⟩

end TypeTable

/-! ## Setup -/

/-- Whether a call may matter to a family: all do but the registration of variants elsewhere. -/
def SetupCall.concerns (family : Family) : SetupCall → Bool
  | .registerType other _ _ => other = family
  | _ => true

namespace Registry

variable {reg reg' reg'' : Registry} {family : Family}

/-- A setup call keeps the type tags reported, if the factory that it may register is pure. -/
theorem Step.reported {next : Registry} {c : SetupCall} (h : reg.Step c next)
    (hpure : ∀ family discriminator factory, c = .registerType family discriminator factory →
      factory.IsPure) (hr : reg.types.Reported) : next.types.Reported := by
  cases h with
  | registerType _ h => exact hr.register (hpure _ _ _ rfl) h
  | _ => exact hr

/-! ### One family -/

/-- Two registries have the same variants in a family, and both take more of them or neither
does. -/
structure SameFamily (family : Family) (reg reg' : Registry) : Prop where
  variants : reg.types.ofFamily family = reg'.types.ofFamily family
  isSealed : reg.isSealed = reg'.isSealed

namespace SameFamily

theorem refl (family : Family) (reg : Registry) : SameFamily family reg reg := ⟨rfl, rfl⟩

theorem symm (h : SameFamily family reg reg') : SameFamily family reg' reg :=
  ⟨h.variants.symm, h.isSealed.symm⟩

theorem trans (h : SameFamily family reg reg') (h' : SameFamily family reg' reg'') :
    SameFamily family reg reg'' := ⟨h.variants.trans h'.variants, h.isSealed.trans h'.isSealed⟩

end SameFamily

/-- A call that neither registers a variant of the family nor ends setup leaves the family as it
is. -/
theorem sameFamily_attempt {c : SetupCall} (hfinish : c ≠ .finish)
    (hother : ∀ discriminator factory, c ≠ .registerType family discriminator factory) :
    SameFamily family (reg.attempt c) reg := by
  refine attempt_induction (P := fun next => SameFamily family next reg) (.refl family reg)
    fun next h => ?_
  cases h with
  | @registerType other discriminator factory typeTag types _ h =>
    obtain ⟨-, -, -, rfl⟩ := TypeTable.register_cases h
    have hne : other ≠ family := by
      rintro rfl
      exact hother _ _ rfl
    refine ⟨?_, rfl⟩
    show TypeTable.ofFamily (reg.types ++ [_]) family = _
    rw [TypeTable.ofFamily_append_singleton, if_neg hne]
  | finish => exact absurd rfl hfinish
  | _ => exact ⟨rfl, rfl⟩

/-- What an attempt to register a variant does. -/
theorem attempt_registerType (reg : Registry) (family : Family) (discriminator : Discriminator)
    (factory : Factory) :
    reg.attempt (.registerType family discriminator factory) =
      if reg.isSealed then reg
      else match reg.types.verdict family discriminator factory with
        | .ok typeTag =>
          { reg with types := reg.types ++ [⟨family, typeTag, discriminator, factory⟩] }
        | .error _ => reg := by
  simp only [attempt, call, registerType, requireOpen, TypeTable.register_eq]
  cases reg.isSealed with
  | true => rfl
  | false => cases reg.types.verdict family discriminator factory <;> rfl

/-- The same call does the same in one family of two registries. -/
theorem SameFamily.attempt (h : SameFamily family reg reg') (c : SetupCall) :
    SameFamily family (reg.attempt c) (reg'.attempt c) := by
  by_cases hfinish : c = .finish
  · subst hfinish
    exact ⟨h.variants, rfl⟩
  by_cases hown : ∃ discriminator factory, c = .registerType family discriminator factory
  · obtain ⟨discriminator, factory, rfl⟩ := hown
    rw [attempt_registerType, attempt_registerType, h.isSealed,
      TypeTable.verdict_congr h.variants discriminator factory]
    split
    · exact h
    · split
      · refine ⟨?_, rfl⟩
        show TypeTable.ofFamily (reg.types ++ [_]) family =
          TypeTable.ofFamily (reg'.types ++ [_]) family
        rw [TypeTable.ofFamily_append_singleton, TypeTable.ofFamily_append_singleton, h.variants]
      · exact h
  · have hother : ∀ discriminator factory, c ≠ .registerType family discriminator factory :=
      fun discriminator factory hc => hown ⟨discriminator, factory, hc⟩
    have hleft : SameFamily family (reg.attempt c) reg := sameFamily_attempt hfinish hother
    have hright : SameFamily family (reg'.attempt c) reg' := sameFamily_attempt hfinish hother
    exact (hleft.trans h).trans hright.symm

/-- The registration of variants in other families may be left out. -/
theorem SameFamily.attempts (h : SameFamily family reg reg') (calls : List SetupCall) :
    SameFamily family (reg.attempts calls) (reg'.attempts (calls.filter (·.concerns family))) := by
  induction calls generalizing reg reg' with
  | nil => exact h
  | cons c rest ih =>
    by_cases hc : c.concerns family
    · rw [List.filter_cons_of_pos hc]
      exact ih (h.attempt c)
    · rw [List.filter_cons_of_neg hc]
      refine ih ((sameFamily_attempt ?_ ?_).trans h)
      · rintro rfl
        exact hc rfl
      · rintro discriminator factory rfl
        exact hc (decide_eq_true rfl)

/-! ### All families -/

/-- What is known of the variants of a registry that has been set up. -/
structure VariantsInStep (reg : Registry) : Prop where
  /-- A type tag leads to a variant exactly if its discriminator does. -/
  bijective : ∀ v : Variant, reg.types.resolveTypeTag v.family v.typeTag = .ok v ↔
    reg.types.resolveDiscriminator v.family v.discriminator = .ok v
  /-- What a type tag leads to has the type tag. -/
  typeTags : ∀ family typeTag v, reg.types.resolveTypeTag family typeTag = .ok v →
    v.family = family ∧ v.typeTag = typeTag
  /-- What a discriminator leads to has the discriminator. -/
  discriminators : ∀ family discriminator v,
    reg.types.resolveDiscriminator family discriminator = .ok v →
    v.family = family ∧ v.discriminator = discriminator
  /-- Each family has two indexes of its own for this, which undo each other. -/
  indexed : ∀ family, reg.types.Indexed family
  /-- A factory builds a zero value, which reports the type tag that leads to the factory. -/
  reported : ∀ family typeTag v, reg.types.resolveTypeTag family typeTag = .ok v →
    ∃ zero, v.factory.build none = .ok zero ∧ zero.typeTag = typeTag

theorem variantsInStep {reg : Registry} (hd : reg.types.Distinct) (hr : reg.types.Reported) :
    reg.VariantsInStep where
  bijective v := by
    rw [TypeTable.resolveTypeTag_eq_ok_iff, TypeTable.resolveDiscriminator_eq_ok_iff]
    exact ⟨hd.byDiscriminator?_of_byTypeTag?, hd.byTypeTag?_of_byDiscriminator?⟩
  typeTags _ _ _ h :=
    (TypeTable.mem_of_byTypeTag? (TypeTable.resolveTypeTag_eq_ok_iff.1 h)).2
  discriminators _ _ _ h :=
    (TypeTable.mem_of_byDiscriminator? (TypeTable.resolveDiscriminator_eq_ok_iff.1 h)).2
  indexed := hd.indexed
  reported family typeTag v h := by
    obtain ⟨hv, -, rfl⟩ := TypeTable.mem_of_byTypeTag? (TypeTable.resolveTypeTag_eq_ok_iff.1 h)
    exact hr v hv

/-- Every variant that the first registry finds, the second finds in the same way. -/
structure KeepsVariants (reg later : Registry) : Prop where
  typeTags : ∀ family typeTag v, reg.types.resolveTypeTag family typeTag = .ok v →
    later.types.resolveTypeTag family typeTag = .ok v
  discriminators : ∀ family discriminator v,
    reg.types.resolveDiscriminator family discriminator = .ok v →
    later.types.resolveDiscriminator family discriminator = .ok v

theorem GrowsTo.keepsVariants {reg later : Registry} (h : reg.GrowsTo later) :
    reg.KeepsVariants later := by
  constructor
  · intro family typeTag v hv
    rw [TypeTable.resolveTypeTag_eq_ok_iff] at hv ⊢
    exact h.types.find?_eq_some hv
  · intro family discriminator v hv
    rw [TypeTable.resolveDiscriminator_eq_ok_iff] at hv ⊢
    exact h.types.find?_eq_some hv

/-- Two registries cannot be told apart by what they find in a family and by what they take into
it. -/
structure SameInFamily (family : Family) (reg reg' : Registry) : Prop where
  resolveTypeTag : reg.types.resolveTypeTag family = reg'.types.resolveTypeTag family
  resolveDiscriminator :
    reg.types.resolveDiscriminator family = reg'.types.resolveDiscriminator family
  typeTags : reg.types.typeTags family = reg'.types.typeTags family
  registers : ∀ discriminator factory,
    (reg.registerType family discriminator factory).map Prod.fst =
      (reg'.registerType family discriminator factory).map Prod.fst

theorem SameFamily.spec (h : SameFamily family reg reg') : SameInFamily family reg reg' where
  resolveTypeTag := by
    funext typeTag
    rw [TypeTable.resolveTypeTag, TypeTable.resolveTypeTag, TypeTable.byTypeTag?_eq_ofFamily,
      h.variants, ← TypeTable.byTypeTag?_eq_ofFamily]
  resolveDiscriminator := by
    funext discriminator
    rw [TypeTable.resolveDiscriminator, TypeTable.resolveDiscriminator,
      TypeTable.byDiscriminator?_eq_ofFamily, h.variants,
      ← TypeTable.byDiscriminator?_eq_ofFamily]
  typeTags := by
    show ((reg.types.ofFamily family).map (·.typeTag)).mergeSort _ = _
    rw [h.variants]
    rfl
  registers discriminator factory := by
    simp only [registerType, requireOpen, TypeTable.register_eq, h.isSealed,
      TypeTable.verdict_congr h.variants discriminator factory]
    cases reg'.isSealed with
    | true => rfl
    | false => cases reg'.types.verdict family discriminator factory <;> rfl

end Registry

open Registry in
/-- Take a registry without variants or with those of the base schema, and any setup calls that
register variants with pure factories, whether they succeed or not. In each family type tags and
discriminators then lead to the same variants, with factories that report these type tags; further
calls leave every variant where it is; and no family would be different without the calls for
others. -/
theorem variants_stay_in_step {start : Registry} (hstart : start = .empty ∨ start = .withBuiltins)
    (calls : List SetupCall)
    (hpure : ∀ family discriminator factory,
      SetupCall.registerType family discriminator factory ∈ calls → factory.IsPure) :
    (start.attempts calls).VariantsInStep ∧
      (∀ more, (start.attempts calls).KeepsVariants (start.attempts (calls ++ more))) ∧
      ∀ family, SameInFamily family (start.attempts calls)
        (start.attempts (calls.filter (·.concerns family))) := by
  have hdistinct : start.types.Distinct := by
    rcases hstart with rfl | rfl
    · exact ⟨List.nodup_nil, List.nodup_nil⟩
    · exact TypeTable.distinct_builtin
  have hreported : start.types.Reported := by
    rcases hstart with rfl | rfl
    · exact nofun
    · exact TypeTable.reported_builtin
  refine ⟨variantsInStep ?_ ?_, fun more => ?_, fun family => ?_⟩
  · exact attempts_induction hdistinct fun _ _ _ _ hstep => hstep.distinct
  · refine attempts_induction hreported fun _ _ c hc hstep => hstep.reported ?_
    rintro family discriminator factory rfl
    exact hpure family discriminator factory hc
  · rw [attempts_append]
    exact (growsTo_attempts _ more).keepsVariants
  · exact (SameFamily.attempts (.refl family start) calls).spec

/-- A variant in two families, and two that are refused: one for its type tag, which the family has,
and one for its discriminator. -/
def bytesSetup : List SetupCall :=
  [.registerType .tagId (.tag 999) .bytes, .registerType .corimId (.tag 999) .bytes,
    .registerType .tagId (.tag 1000) .uuid, .registerType .tagId (.tag 999) .oid]

/-- After this setup the new variant is found both ways in the family of tag identifiers, which
would be so without the call for the other family. -/
theorem variants_stay_in_step_bytes :
    let v : Variant := ⟨.tagId, "bytes", .tag 999, .bytes⟩
    let reg := Registry.withBuiltins.attempts bytesSetup
    reg.types.length = 10 ∧ (bytesSetup.filter (·.concerns .tagId)).length = 3 ∧
      reg.types.resolveDiscriminator .tagId (.tag 999) = .ok v ∧
      (∃ zero, v.factory.build none = .ok zero ∧ zero.typeTag = "bytes") ∧
      (Registry.withBuiltins.attempts (bytesSetup ++ bytesSetup)).types.resolveTypeTag .tagId
        "bytes" = .ok v ∧
      (Registry.withBuiltins.attempts (bytesSetup.filter (·.concerns .tagId))).types.resolveTypeTag
        .tagId "bytes" = .ok v := by
  intro v reg
  have hpure : ∀ family discriminator factory,
      SetupCall.registerType family discriminator factory ∈ bytesSetup → factory.IsPure := by
    intro family discriminator factory h
    simp only [bytesSetup, List.mem_cons, List.not_mem_nil, or_false,
      SetupCall.registerType.injEq] at h
    rcases h with ⟨-, -, rfl⟩ | ⟨-, -, rfl⟩ | ⟨-, -, rfl⟩ | ⟨-, -, rfl⟩ <;> rfl
  obtain ⟨hstep, hkeeps, hsame⟩ := variants_stay_in_step (.inr rfl) bytesSetup hpure
  have hv : reg.types.resolveTypeTag .tagId "bytes" = .ok v := rfl
  refine ⟨rfl, rfl, (hstep.bijective v).1 hv, hstep.reported _ _ v hv, ?_, ?_⟩
  · exact (hkeeps bytesSetup).typeTags _ _ v hv
  · rw [← (hsame .tagId).resolveTypeTag]
    exact hv

end Rim
