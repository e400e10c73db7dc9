import Rim.Record.Entity
import Rim.Record.Triples

/-!
# Module identifier tags

* `TagIdentity`: the identifier and version of a tag.
* `Comid`: a tag: its identity, the entities behind it and its triples.
-/

namespace Rim

/-- The identifier and version of a tag. -/
structure TagIdentity where
  tagId : Option ChoiceValue := none
  tagVersion : Option UInt64 := none
  deriving BEq

namespace TagIdentity

def validate (t : TagIdentity) : Validation :=
  Validation.mandatory "id" ChoiceValue.validate t.tagId

def fields : List (Field TagIdentity) :=
  [.of 0 "id" (Wire.choice .tagId) (·.tagId) fun v t => { t with tagId := some v },
   .of 1 "version" Coding.uint.toWire (·.tagVersion) fun n t => { t with tagVersion := some n }]

instance : Record TagIdentity where
  name := "tag identity"
  fields := fields
  empty := {}
  validate := validate

end TagIdentity

/-- A module identifier tag. -/
structure Comid where
  language : Option String := none
  tagIdentity : Option TagIdentity := none
  entities : List Entity := []
  triples : Triples := {}
  extensions : ExtensionSet := .empty
  deriving BEq

namespace Comid

/-- Identity and triples have to be there, and all fields have to be valid. -/
def validate (c : Comid) : Validation := do
  match c.tagIdentity with
  | none => throw (.missing "tag-identity")
  | some identity =>
    Validation.require (!c.triples.isEmpty) (.missing "triples")
    Validation.nonEmpty "lang" c.language
    Validation.field "tag-identity" identity.validate
    Validation.list "entities" Entity.validate c.entities
    Validation.field "triples" c.triples.validate
    c.extensions.validate

def setTagIdentity (c : Comid) (tagId : ChoiceValue) (version : Option UInt64) : Comid :=
  { c with tagIdentity := some { tagId := some tagId, tagVersion := version } }

def addEntity (c : Comid) (e : Entity) : Comid := { c with entities := c.entities ++ [e] }

def addReferenceValue (c : Comid) (v : ValueTriple) : Comid :=
  { c with triples := c.triples.addReferenceValue v }

def addEndorsedValue (c : Comid) (v : ValueTriple) : Comid :=
  { c with triples := c.triples.addEndorsedValue v }

def fields : List (Field Comid) :=
  [.of 0 "lang" Coding.text.toWire (·.language) fun s c => { c with language := some s },
   .of 1 "tag-identity" (Record.wire TagIdentity) (·.tagIdentity)
     fun t c => { c with tagIdentity := some t },
   .of 2 "entities" (Wire.list (Record.wire Entity)) (fun c => present? c.entities)
     fun es c => { c with entities := es },
   .of 4 "triples" (Record.wire Triples)
     (fun c => if c.triples.isEmpty then none else some c.triples)
     fun t c => { c with triples := t }]

instance : Record Comid where
  name := "comid"
  fields := fields
  empty := {}
  validate := validate
  host := some ⟨"comid", (·.extensions), fun set c => { c with extensions := set }⟩

instance : Extensible Comid where
  bind map c :=
    let c := Record.bindOwn map c
    { c with
      entities := c.entities.map (Extensible.bind map)
      triples := Extensible.bind map c.triples }

end Comid

namespace ExtensionPoint

/-- The module identifier tags. -/
def comids : ExtensionPoint := .own "comid" (Comid.fields.map (·.key))

end ExtensionPoint

end Rim
