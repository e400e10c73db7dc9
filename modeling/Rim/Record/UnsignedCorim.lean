import Rim.Record.Comid
import Rim.Record.Validity

/-!
# Manifests

* `UnsignedCorim`: an identified bundle of tags under one profile.
* `Comid.embedded`: tags inside a manifest: encoded and tagged octets in the binary form, an
  envelope in the text form.

A manifest that names a registered profile is read with the shapes of that profile throughout.
-/

namespace Rim

namespace Comid

/-- Tags inside manifests. -/
def embedded : Wire Comid where
  encode
    | .binary, types, c => do
      let v ← Record.encode .binary types c
      return Cbor.tag TagNumber.comid (.bytes (Cbor.write v))
    | .text, types, c => do
      let v ← Record.encode .text types c
      return Json.Envelope.toJson ⟨"comid", v⟩
  decode
    | .binary, sc, v => do
      let content ← Decoding.ofExcept (Cbor.expectTag TagNumber.comid v)
      let octets ← Decoding.ofExcept (Cbor.expectBytes content)
      let inner ← Decoding.ofExcept (Cbor.parse octets)
      Record.decode .binary sc inner
    | .text, sc, v => do
      let e ← Decoding.ofExcept (Json.Envelope.ofJson v)
      if e.typeTag = "comid" then Record.decode .text sc e.value
      else Decoding.fail (.invalidValue s!"unsupported tag type {Text.quote e.typeTag}")

end Comid

/-- An identified bundle of tags under one profile. -/
structure UnsignedCorim where
  id : Option ChoiceValue := none
  tags : List Comid := []
  profile : Option ProfileId := none
  rimValidity : Option Validity := none
  entities : List Entity := []
  extensions : ExtensionSet := .empty
  deriving BEq

namespace UnsignedCorim

/-- Identifier and tags have to be there, and all fields have to be valid. The profile is not
looked at. -/
def validate (m : UnsignedCorim) : Validation := do
  match m.id with
  | none => throw (.missing "corim-id")
  | some id =>
    Validation.require (!m.tags.isEmpty) (.missing "tags")
    Validation.field "corim-id" id.validate
    Validation.list "tags" Comid.validate m.tags
    Validation.optional "rim-validity" Validity.validate m.rimValidity
    Validation.list "entities" Entity.validate m.entities
    m.extensions.validate

/-- Sets a plain identifier. -/
def setId (m : UnsignedCorim) (id : String) : Except ValidationError UnsignedCorim :=
  return { m with id := some (← Choice.plain id) }

def addTag (m : UnsignedCorim) (c : Comid) : UnsignedCorim := { m with tags := m.tags ++ [c] }

def addEntity (m : UnsignedCorim) (e : Entity) : UnsignedCorim :=
  { m with entities := m.entities ++ [e] }

/-- The key of the profile. -/
def profileKey : FieldKey := ⟨3, "profile"⟩

def fields : List (Field UnsignedCorim) :=
  [.of 0 "corim-id" (Wire.choice .corimId) (·.id) fun v m => { m with id := some v },
   .of 1 "tags" (Wire.list Comid.embedded) (fun m => present? m.tags)
     fun cs m => { m with tags := cs },
   .of profileKey.slot profileKey.name ProfileId.coding.toWire (·.profile)
     fun p m => { m with profile := some p },
   .of 4 "rim-validity" (Record.wire Validity) (·.rimValidity)
     fun w m => { m with rimValidity := some w },
   .of 5 "entities" (Wire.list (Record.wire Entity)) (fun m => present? m.entities)
     fun es m => { m with entities := es }]

instance : Record UnsignedCorim where
  name := "unsigned corim"
  fields := fields
  empty := {}
  validate := validate
  host := some ⟨"corim", (·.extensions), fun set m => { m with extensions := set }⟩
  profileField := some profileKey

instance : Extensible UnsignedCorim where
  bind map m :=
    let m := Record.bindOwn map m
    { m with
      tags := m.tags.map (Extensible.bind map)
      entities := m.entities.map (Extensible.bind map) }

end UnsignedCorim

namespace ExtensionPoint

/-- The manifests. -/
def corims : ExtensionPoint := .own "corim" (UnsignedCorim.fields.map (·.key))

/-- The points of the base schema, with their synonyms. -/
def all : List ExtensionPoint :=
  [comids, entities, triples, classes, mval, corims, referenceValue, endorsedValue]

/-- The point of a name: one of the base schema, or a new one without fixed fields. -/
def ofName (name : String) : ExtensionPoint := (all.find? (·.name == name)).getD (.own name [])

end ExtensionPoint

end Rim
