import Rim.Extension.Value

/-!
# Extension points and shapes

* `ExtensionPoint`: a kind of record that can be extended, or another name for one.
* `ExtensionField`, `ExtensionShape`: the fields that extend a kind of record, in the order in which
  they are written.
* `ExtensionShape.push`, `ExtensionShape.ofFields`: fields are added one after the other; the key,
  the slot and the name of each have to be new.
* `ExtensionShape.checkAgainst`: no field may shadow a fixed field of the point.
-/

namespace Rim

/-- Why extensions cannot be declared, bound or used. -/
inductive ExtensionError where
  | notFound (key : String)
  /-- A set without a shape holds nothing. -/
  | noShape (key : String)
  | unknownKey (key : String)
  | typeMismatch (key expected found : String)
  | duplicateKey (key : String)
  | duplicateSlot (slot : Int64)
  | duplicateName (name : String)
  | fixedFieldCollision (point key : String)
  | duplicatePoint (point : String)
  deriving DecidableEq, Repr

/-- The text of an error. -/
def ExtensionError.message : ExtensionError → String
  | .notFound key => s!"extension {key} not set"
  | .noShape key => s!"no extension shape bound; cannot set {key}"
  | .unknownKey key => s!"extension {key} is not declared by the bound shape"
  | .typeMismatch key expected found => s!"extension {key} holds {expected}, not {found}"
  | .duplicateKey key => s!"duplicate extension key {key}"
  | .duplicateSlot slot => s!"duplicate extension wire slot {slot.toInt}"
  | .duplicateName name => s!"duplicate extension text name {name}"
  | .fixedFieldCollision point key => s!"extension {key} collides with a fixed field of {point}"
  | .duplicatePoint point => s!"extension point {point} bound twice"

/-! ## Points -/

/-- A kind of record that can be extended. -/
inductive ExtensionPoint where
  /-- A point with the keys of its record's fixed fields. -/
  | own (name : String) (fixed : List FieldKey)
  /-- Another name for a point. -/
  | synonym (name : String) (target : ExtensionPoint)
  deriving DecidableEq, Repr

namespace ExtensionPoint

def name : ExtensionPoint → String
  | .own name _ => name
  | .synonym name _ => name

/-- The point that shapes are bound to. -/
def canonical : ExtensionPoint → ExtensionPoint
  | .own name fixed => .own name fixed
  | .synonym _ target => target.canonical

/-- The keys of the fixed fields of the record. -/
def fixed : ExtensionPoint → List FieldKey
  | .own _ fixed => fixed
  | .synonym _ target => target.fixed

@[simp] theorem canonical_canonical (p : ExtensionPoint) : p.canonical.canonical = p.canonical := by
  induction p with
  | own => rfl
  | synonym _ _ ih => exact ih

@[simp] theorem fixed_canonical (p : ExtensionPoint) : p.canonical.fixed = p.fixed := by
  induction p with
  | own => rfl
  | synonym _ _ ih => exact ih

end ExtensionPoint

/-! ## Shapes -/

/-- A declared extension field. -/
structure ExtensionField where
  /-- The key under which programs know the field. -/
  key : String
  /-- The key of the field in both forms. -/
  wire : FieldKey
  type : ExtensionType

namespace ExtensionField

/-- A field whose name in the text form is its key. -/
def plain (key : String) (slot : Int64) (type : ExtensionType) : ExtensionField :=
  ⟨key, ⟨slot, key⟩, type⟩

/-- Whether two fields are declared alike. -/
def same (a b : ExtensionField) : Bool := a.key == b.key && a.wire == b.wire && a.type.same b.type

/-- Why two fields cannot stand in one shape. -/
def clash? (a b : ExtensionField) : Option ExtensionError :=
  if a.key = b.key then some (.duplicateKey b.key)
  else if a.wire.slot = b.wire.slot then some (.duplicateSlot b.wire.slot)
  else if a.wire.name = b.wire.name then some (.duplicateName b.wire.name)
  else none

/-- Decodes a value of the field. -/
def decode (x : ExtensionField) (f : Form) (v : f.Value) : Except DecodeError ExtensionValue :=
  (x.type.decode f v).mapError (.extension x.key)

end ExtensionField

/-- The extension fields of a kind of record, in the order in which they are written. -/
structure ExtensionShape where
  fields : List ExtensionField

namespace ExtensionShape

def empty : ExtensionShape := ⟨[]⟩

/-- Adds a field; the first field it clashes with is reported. -/
def push (s : ExtensionShape) (x : ExtensionField) : Except ExtensionError ExtensionShape :=
  match s.fields.findSome? (·.clash? x) with
  | some e => .error e
  | none => .ok ⟨s.fields ++ [x]⟩

/-- The shape of some fields, added one after the other. -/
def ofFields (fields : List ExtensionField) : Except ExtensionError ExtensionShape :=
  fields.foldlM push empty

/-- The field with a program key. -/
def byKey? (s : ExtensionShape) (key : String) : Option ExtensionField :=
  s.fields.find? fun x => x.key = key

/-- The field with a key of a form. -/
def byWire? (s : ExtensionShape) (f : Form) (key : f.Key) : Option ExtensionField :=
  s.fields.find? fun x => f.keyOf x.wire = key

/-- No field may have a slot or a name of a fixed field. -/
def checkAgainst (s : ExtensionShape) (point : ExtensionPoint) : Except ExtensionError Unit :=
  let shadows (x : ExtensionField) : Bool :=
    point.fixed.any fun k => k.slot = x.wire.slot || k.name = x.wire.name
  match s.fields.find? shadows with
  | some x => .error (.fixedFieldCollision point.name x.key)
  | none => .ok ()

/-- Whether two shapes declare the same fields in the same order. -/
def same (s t : ExtensionShape) : Bool :=
  s.fields.length == t.fields.length &&
    (s.fields.zip t.fields).all fun (x, y) => x.same y

end ExtensionShape

end Rim
