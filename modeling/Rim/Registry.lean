import Rim.Profile.Basic
import Rim.Telemetry.Counters

/-!
# The registry

* `Registry`: the variants, the profiles, the shapes in force and the telemetry of a program.
* `Registry.registerType`, `Registry.registerProfile`, `Registry.bind`, `Registry.bindProfile`:
  setup. A call that fails changes nothing, and after `Registry.sealed` every call fails.
-/

namespace Rim

/-- Why a setup call fails. -/
inductive RegistrationError where
  /-- The table of variants cannot take the variant. -/
  | table (cause : TableError)
  | duplicateProfile (id : String)
  /-- The registry takes no more setup. -/
  | isSealed (action : String)
  | unknownProfile (id : String)
  | extension (cause : ExtensionError)
  deriving DecidableEq, Repr

/-- The text of an error. -/
def TableError.message : TableError → String
  | .duplicateTypeTag family typeTag =>
    s!"{family.name} variant with type tag {Text.quote typeTag} already exists"
  | .duplicateDiscriminator family discriminator =>
    s!"{family.name} already has a variant selected by {discriminator.describe}"
  | .probeFailed family cause =>
    s!"{family.name} factory failed its zero-value probe: {cause.message}"

/-- The text of an error. -/
def RegistrationError.message : RegistrationError → String
  | .table cause => cause.message
  | .duplicateProfile id => s!"profile {id} already registered"
  | .isSealed action => s!"registry sealed: cannot {action}"
  | .unknownProfile id => s!"profile {id} not registered"
  | .extension cause => cause.message

/-- The variants, profiles, shapes in force and telemetry of a program. -/
structure Registry where
  types : TypeTable
  /-- The registered profiles, the oldest first. -/
  profiles : List Profile := []
  bindings : ExtensionMap := .empty
  counters : Counters := .zero
  /-- Setup is over. -/
  isSealed : Bool := false

namespace Registry

/-- A registry that knows no variant. -/
def empty : Registry := { types := [] }

/-- A registry with the variants of the base schema. -/
def withBuiltins : Registry := { types := TypeTable.builtin }

instance : Inhabited Registry := ⟨withBuiltins⟩

/-! ## Setup -/

/-- Setup calls are refused after sealing. -/
def requireOpen (reg : Registry) (action : String) : Except RegistrationError Unit :=
  if reg.isSealed then .error (.isSealed action) else .ok ()

/-- Registers a variant under the type tag that its zero value reports, which is returned too. -/
def registerType (reg : Registry) (family : Family) (discriminator : Discriminator)
    (factory : Factory) : Except RegistrationError (String × Registry) := do
  reg.requireOpen "register a type-choice variant"
  let (typeTag, types) ← (reg.types.register family discriminator factory).mapError .table
  return (typeTag, { reg with types })

/-- The profile registered under an identifier. -/
def profile? (reg : Registry) (id : ProfileId) : Option Profile :=
  reg.profiles.find? fun p => p.id = id

/-- Registers a profile under a new identifier. -/
def registerProfile (reg : Registry) (p : Profile) : Except RegistrationError Registry := do
  reg.requireOpen "register a profile"
  if (reg.profile? p.id).isSome then throw (.duplicateProfile p.id.text)
  return { reg with profiles := reg.profiles ++ [p] }

/-- The registered identifiers, sorted. -/
def profileIds (reg : Registry) : List ProfileId :=
  (reg.profiles.map (·.id)).mergeSort ProfileId.le

/-- Puts a shape in force at a point, in the place of any other. -/
def bind (reg : Registry) (point : ExtensionPoint) (shape : ExtensionShape) :
    Except RegistrationError Registry := do
  reg.requireOpen "bind an extension shape"
  let bindings ← (reg.bindings.replace point shape).mapError .extension
  return { reg with bindings }

/-- Puts the shapes of a registered profile in force. -/
def bindProfile (reg : Registry) (id : ProfileId) : Except RegistrationError Registry := do
  reg.requireOpen "bind a profile"
  match reg.profile? id with
  | none => throw (.unknownProfile id.text)
  | some p => return { reg with bindings := reg.bindings.overlay p.shapes }

/-- The registry after setup: it takes no more of it. -/
def sealed (reg : Registry) : Registry := { reg with isSealed := true }

/-! ## Telemetry -/

/-- Adds unknown fields passed over. -/
def noteSkipped (reg : Registry) (count : Nat) : Registry :=
  { reg with counters := reg.counters.noteSkipped count }

/-- The telemetry up to now. -/
def snapshot (reg : Registry) : Snapshot := Snapshot.ofCounters reg.counters

end Registry

end Rim
