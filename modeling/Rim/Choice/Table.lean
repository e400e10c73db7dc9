import Rim.Choice.Factory

/-!
# The table of variants

* `TypeTable`: the registered variants of all families, in the order of their registration.
* `TypeTable.byTypeTag?`, `TypeTable.byDiscriminator?`: the two ways to find one.
* `TypeTable.register`: adds a variant under the type tag that its zero value reports, unless the
  family already uses the type tag or the discriminator.
* `TypeTable.builtin`: the variants of the base schema.
-/

namespace Rim

/-- A registered variant. -/
structure Variant where
  family : Family
  typeTag : String
  discriminator : Discriminator
  factory : Factory

/-- The registered variants, the oldest first. -/
abbrev TypeTable := List Variant

/-- Why the table cannot take a variant. -/
inductive TableError where
  | duplicateTypeTag (family : Family) (typeTag : String)
  | duplicateDiscriminator (family : Family) (discriminator : Discriminator)
  /-- The factory did not build its zero value. -/
  | probeFailed (family : Family) (cause : ChoiceError)
  deriving DecidableEq, Repr

namespace TypeTable

/-- The variant of a family with a type tag. -/
def byTypeTag? (types : TypeTable) (family : Family) (typeTag : String) : Option Variant :=
  List.find? (fun v => v.family = family ∧ v.typeTag = typeTag) types

/-- The variant of a family with a discriminator. -/
def byDiscriminator? (types : TypeTable) (family : Family) (discriminator : Discriminator) :
    Option Variant :=
  List.find? (fun v => v.family = family ∧ v.discriminator = discriminator) types

/-- The variant of a type tag, or the error that there is none. -/
def resolveTypeTag (types : TypeTable) (family : Family) (typeTag : String) :
    Except ChoiceError Variant :=
  match types.byTypeTag? family typeTag with
  | some v => .ok v
  | none => .error (.unknownVariant family typeTag)

/-- The variant of a discriminator, or the error that there is none. -/
def resolveDiscriminator (types : TypeTable) (family : Family) (discriminator : Discriminator) :
    Except ChoiceError Variant :=
  match types.byDiscriminator? family discriminator with
  | some v => .ok v
  | none => .error (.unknownVariant family discriminator.describe)

/-- The type tags of a family, sorted. -/
def typeTags (types : TypeTable) (family : Family) : List String :=
  ((types.filter (·.family = family)).map (·.typeTag)).mergeSort fun a b => a ≤ b

/-- Adds a variant. Its zero value reports the type tag, which is returned with the table. -/
def register (types : TypeTable) (family : Family) (discriminator : Discriminator)
    (factory : Factory) : Except TableError (String × TypeTable) := do
  match factory.probe with
  | .error e => throw (.probeFailed family e)
  | .ok zero =>
    let typeTag := zero.typeTag
    if (types.byTypeTag? family typeTag).isSome then throw (.duplicateTypeTag family typeTag)
    if (types.byDiscriminator? family discriminator).isSome then
      throw (.duplicateDiscriminator family discriminator)
    return (typeTag, types ++ [⟨family, typeTag, discriminator, factory⟩])

/-- The variants of the base schema. -/
def builtin : TypeTable :=
  [⟨.entityName, "string", .bareText, .text⟩,
   ⟨.classId, "oid", .tag TagNumber.oid, .oid⟩,
   ⟨.classId, "uuid", .tag TagNumber.uuid, .uuid⟩,
   ⟨.classId, "bytes", .tag TagNumber.taggedBytes, .bytes⟩,
   ⟨.tagId, "string", .bareText, .text⟩,
   ⟨.tagId, "uuid", .bareBytes, .uuid⟩,
   ⟨.corimId, "string", .bareText, .text⟩,
   ⟨.corimId, "uuid", .bareBytes, .uuid⟩]

end TypeTable

end Rim
