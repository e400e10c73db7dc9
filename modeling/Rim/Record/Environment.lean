import Rim.Schema.Record

/-!
# Environments

* `Class`: what kind of thing has been measured.
* `Environment`: the place of a class.
-/

namespace Rim

/-- A class of things: an identifier, and what a vendor calls it. -/
structure Class where
  classId : Option ChoiceValue := none
  vendor : Option String := none
  model : Option String := none
  layer : Option UInt64 := none
  index : Option UInt64 := none
  extensions : ExtensionSet := .empty
  deriving BEq

namespace Class

/-- Whether a fixed field is present. -/
def hasField (c : Class) : Bool :=
  c.classId.isSome || c.vendor.isSome || c.model.isSome || c.layer.isSome || c.index.isSome

/-- Something has to be present, and whatever is has to be valid. -/
def validate (c : Class) : Validation := do
  Validation.require (c.hasField || !c.extensions.isEmpty) (.invalid "class must not be empty")
  Validation.optional "id" ChoiceValue.validate c.classId
  Validation.nonEmpty "vendor" c.vendor
  Validation.nonEmpty "model" c.model
  c.extensions.validate

/-- Names the class by an object identifier in dotted text. -/
def setOid (c : Class) (dotted : String) : Except ChoiceError Class :=
  return { c with classId := some (← Factory.oidOfText dotted) }

/-- Names the class by a UUID. -/
def setUuid (c : Class) (u : Uuid) : Class := { c with classId := some (.uuid u) }

/-- Names the class by octets. -/
def setBytes (c : Class) (bs : Bytes) : Class := { c with classId := some (.bytes bs) }

def fields : List (Field Class) :=
  [.of 0 "id" (Wire.choice .classId) (·.classId) fun v c => { c with classId := some v },
   .of 1 "vendor" Coding.text.toWire (·.vendor) fun s c => { c with vendor := some s },
   .of 2 "model" Coding.text.toWire (·.model) fun s c => { c with model := some s },
   .of 3 "layer" Coding.uint.toWire (·.layer) fun n c => { c with layer := some n },
   .of 4 "index" Coding.uint.toWire (·.index) fun n c => { c with index := some n }]

instance : Record Class where
  name := "class"
  fields := fields
  empty := {}
  validate := validate
  host := some ⟨"class", (·.extensions), fun set c => { c with extensions := set }⟩

instance : Extensible Class := ⟨Record.bindOwn⟩

end Class

namespace ExtensionPoint

/-- The classes. -/
def classes : ExtensionPoint := .own "class" (Class.fields.map (·.key))

end ExtensionPoint

/-- The place of a class. -/
structure Environment where
  class_ : Option Class := none
  deriving BEq

namespace Environment

def validate (e : Environment) : Validation := Validation.mandatory "class" Class.validate e.class_

def fields : List (Field Environment) :=
  [.of 0 "class" (Record.wire Class) (·.class_) fun c e => { e with class_ := some c }]

instance : Record Environment where
  name := "environment"
  fields := fields
  empty := {}
  validate := validate

instance : Extensible Environment where
  bind map e := { e with class_ := e.class_.map (Extensible.bind map) }

end Environment

end Rim
