import Rim.Schema.Record

/-!
# Entities

* `Role`, `Roles`: what an entity has to do with a tag or manifest.
* `Entity`: who created or maintains one, and in which roles.
-/

namespace Rim

/-- What an entity has to do with a tag or manifest. -/
inductive Role where
  | tagCreator
  | creator
  | maintainer
  deriving DecidableEq, Repr

namespace Role

def all : List Role := [.tagCreator, .creator, .maintainer]

def number : Role → UInt64
  | .tagCreator => 0
  | .creator => 1
  | .maintainer => 2

def name : Role → String
  | .tagCreator => "tagCreator"
  | .creator => "creator"
  | .maintainer => "maintainer"

def ofNumber? (n : UInt64) : Option Role := all.find? fun r => r.number == n

def ofName? (s : String) : Option Role := all.find? fun r => r.name == s

@[simp] theorem ofNumber?_number (r : Role) : ofNumber? r.number = some r := by
  cases r <;> rfl

@[simp] theorem ofName?_name (r : Role) : ofName? r.name = some r := by
  cases r <;> decide

def ofCbor (v : Cbor) : Except DecodeError Role := do
  let n ← Cbor.expectUInt v
  match ofNumber? n with
  | some r => return r
  | none => throw (.invalidValue s!"unknown role {n.toNat}")

def ofJson (v : Json) : Except DecodeError Role := do
  let name ← Json.expectString v
  match ofName? name with
  | some r => return r
  | none => throw (.invalidValue s!"unknown role {Text.quote name}")

/-- Roles are numbers in the binary form and names in the text form. -/
def coding : Coding Role where
  encode
    | .binary, r => .ok (Cbor.uint r.number)
    | .text, r => .ok (Json.string r.name)
  decode
    | .binary, v => ofCbor v
    | .text, v => ofJson v

end Role

/-- Roles in the order they were added. -/
abbrev Roles := List Role

namespace Roles

/-- Checks roles from the given index on, after those in `seen`: none may come twice. -/
def validateFrom (seen : List Role) : (index : Nat) → Roles → Validation
  | _, [] => .ok ()
  | i, r :: rest =>
    if r ∈ seen then
      .error ((ValidationError.invalid s!"duplicate role {r.name}").within (.index "roles" i))
    else validateFrom (r :: seen) (i + 1) rest

/-- No role may come twice. -/
def validate (roles : Roles) : Validation := validateFrom [] 0 roles

def coding : Coding Roles := Coding.list Role.coding

end Roles

/-- Who created or maintains a tag or manifest. -/
structure Entity where
  name : Option ChoiceValue := none
  regId : Option String := none
  roles : Roles := []
  extensions : ExtensionSet := .empty
  deriving BEq

namespace Entity

/-- Name and roles have to be there, and all fields have to be valid. -/
def validate (e : Entity) : Validation := do
  match e.name with
  | none => throw (.missing "name")
  | some name =>
    Validation.require (!e.roles.isEmpty) (.missing "roles")
    Validation.field "name" name.validate
    Validation.optionalUri "regid" e.regId
    Roles.validate e.roles
    e.extensions.validate

/-- Sets a plain name. -/
def setName (e : Entity) (name : String) : Except ValidationError Entity :=
  return { e with name := some (← Choice.plain name) }

/-- Sets the registration identifier, an absolute URI. -/
def setRegId (e : Entity) (uri : String) : Except ValidationError Entity := do
  Validation.require (Uri.isAbsolute uri) (.notAbsoluteUri "regid" uri)
  return { e with regId := some uri }

def addRole (e : Entity) (role : Role) : Entity := { e with roles := e.roles ++ [role] }

def fields : List (Field Entity) :=
  [.of 0 "name" (Wire.choice .entityName) (·.name) fun v e => { e with name := some v },
   .of 1 "regid" Coding.taggedUri.toWire (·.regId) fun s e => { e with regId := some s },
   .of 2 "roles" Roles.coding.toWire (fun e => present? e.roles) fun rs e => { e with roles := rs }]

instance : Record Entity where
  name := "entity"
  fields := fields
  empty := {}
  validate := validate
  host := some ⟨"entity", (·.extensions), fun set e => { e with extensions := set }⟩

instance : Extensible Entity := ⟨Record.bindOwn⟩

end Entity

namespace ExtensionPoint

/-- The entities. -/
def entities : ExtensionPoint := .own "entity" (Entity.fields.map (·.key))

end ExtensionPoint

end Rim
