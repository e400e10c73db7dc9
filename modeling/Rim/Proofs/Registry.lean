import Rim.Proofs.Choice
import Rim.Proofs.Extension.Map
import Rim.Codec

/-!
# What setup calls do

* `TypeTable.register_cases`, `TypeTable.Distinct.register`: a variant takes a free type tag and a
  free discriminator.
* `Registry.registerType_cases` and its siblings: what a setup call that succeeds has done.
* `Scope.types_scopedTo`: the profile of a record does not change the variants that it is read with.
-/

namespace Rim

/-! ## Tables of variants -/

namespace TypeTable

/-- A variant that is registered takes a free type tag and a free discriminator. -/
theorem register_cases {types table : TypeTable} {family : Family}
    {discriminator : Discriminator} {factory : Factory} {typeTag : String}
    (h : types.register family discriminator factory = .ok (typeTag, table)) :
    (∃ zero, factory.probe = .ok zero ∧ zero.typeTag = typeTag) ∧
      types.byTypeTag? family typeTag = none ∧
      types.byDiscriminator? family discriminator = none ∧
      table = types ++ [⟨family, typeTag, discriminator, factory⟩] := by
  unfold register at h
  split at h
  · cases h
  next zero hprobe =>
    dsimp only at h
    split at h
    · cases h
    next hfreeTag =>
      split at h
      · cases h
      next hfreeDisc =>
        obtain ⟨rfl, rfl⟩ := Prod.mk.inj (Except.ok.inj h)
        refine ⟨⟨zero, hprobe, rfl⟩, ?_, ?_, rfl⟩
        · simpa using hfreeTag
        · simpa using hfreeDisc

theorem Distinct.register {types table : TypeTable} (hd : types.Distinct) {family : Family}
    {discriminator : Discriminator} {factory : Factory} {typeTag : String}
    (h : types.register family discriminator factory = .ok (typeTag, table)) : table.Distinct := by
  obtain ⟨-, htag, hdisc, rfl⟩ := register_cases h
  refine ⟨nodup_map_append_singleton hd.typeTags ?_,
    nodup_map_append_singleton hd.discriminators ?_⟩
  · intro w hw heq
    have hfree := List.find?_eq_none.1 htag w hw
    exact hfree (by simpa using heq)
  · intro w hw heq
    have hfree := List.find?_eq_none.1 hdisc w hw
    exact hfree (by simpa using heq)

end TypeTable

namespace Registry

/-! ## What a call does -/

theorem registerType_cases {reg next : Registry} {family : Family}
    {discriminator : Discriminator} {factory : Factory} {typeTag : String}
    (h : reg.registerType family discriminator factory = .ok (typeTag, next)) :
    ∃ types, reg.types.register family discriminator factory = .ok (typeTag, types) ∧
      next = { reg with types } := by
  obtain ⟨_, -, h⟩ := Except.bind_eq_ok_iff.1 h
  obtain ⟨⟨tag, types⟩, htable, h⟩ := Except.bind_eq_ok_iff.1 h
  obtain ⟨rfl, rfl⟩ := Prod.mk.inj (Except.ok.inj h)
  exact ⟨types, Except.mapError_eq_ok_iff.1 htable, rfl⟩

theorem registerProfile_cases {reg next : Registry} {p : Profile}
    (h : reg.registerProfile p = .ok next) :
    reg.profile? p.id = none ∧ next = { reg with profiles := reg.profiles ++ [p] } := by
  obtain ⟨_, -, h⟩ := Except.bind_eq_ok_iff.1 h
  dsimp only at h
  split at h
  · cases h
  next hfree => exact ⟨by simpa using hfree, (Except.ok.inj h).symm⟩

theorem bind_cases {reg next : Registry} {point : ExtensionPoint} {shape : ExtensionShape}
    (h : reg.bind point shape = .ok next) :
    ∃ bindings, reg.bindings.replace point shape = .ok bindings ∧
      next = { reg with bindings } := by
  obtain ⟨_, -, h⟩ := Except.bind_eq_ok_iff.1 h
  obtain ⟨bindings, hreplace, h⟩ := Except.bind_eq_ok_iff.1 h
  exact ⟨bindings, Except.mapError_eq_ok_iff.1 hreplace, (Except.ok.inj h).symm⟩

theorem bindProfile_cases {reg next : Registry} {id : ProfileId}
    (h : reg.bindProfile id = .ok next) :
    ∃ p, reg.profile? id = some p ∧
      next = { reg with bindings := reg.bindings.overlay p.shapes } := by
  obtain ⟨_, -, h⟩ := Except.bind_eq_ok_iff.1 h
  split at h
  · cases h
  next p hp => exact ⟨p, hp, (Except.ok.inj h).symm⟩

theorem mem_of_profile? {reg : Registry} {id : ProfileId} {p : Profile}
    (h : reg.profile? id = some p) : p ∈ reg.profiles ∧ p.id = id :=
  ⟨List.mem_of_find?_eq_some h, by simpa using List.find?_some h⟩

end Registry

/-! ## Scopes -/

theorem Scope.types_scopedTo (sc : Scope) (id : Option ProfileId) :
    (sc.scopedTo id).types = sc.types := by
  unfold Scope.scopedTo
  split <;> rfl

end Rim
