import Rim.Extension.Map

/-!
# Extension sets

* `ExtensionSet`: the extension values of one record, by their keys, and the shape they belong to.
  Without a shape nothing can be set.
* `ExtensionSet.bind`: gives the set a shape; entries that the new shape does not declare with the
  same type are dropped.
* `ExtensionSet.set`, `ExtensionSet.get`, `ExtensionSet.getAs`, `ExtensionSet.delete`: entries.
* `ExtensionSet.encode`: the entries in the order of the shape.
-/

namespace Rim

/-- The extension values of one record. -/
@[ext]
structure ExtensionSet where
  shape : Option ExtensionShape
  entries : Keyed ExtensionValue
  /-- Each key stands once, and in order. -/
  sorted : entries.Sorted

namespace ExtensionSet

/-- A set without a shape. -/
def empty : ExtensionSet := ⟨none, [], Keyed.sorted_nil⟩

instance : Inhabited ExtensionSet := ⟨empty⟩

/-- An empty set with a shape. -/
def bound (shape : ExtensionShape) : ExtensionSet := ⟨some shape, [], Keyed.sorted_nil⟩

/-- Whether an entry may stay when one shape gives way to another. -/
def survives (old new : ExtensionShape) (key : String) : Bool :=
  match old.byKey? key, new.byKey? key with
  | some a, some b => a.type.same b.type
  | _, _ => false

/-- Gives the set a shape. -/
def bind (set : ExtensionSet) (shape : ExtensionShape) : ExtensionSet :=
  match set.shape with
  | none => { set with shape := some shape }
  | some old =>
    ⟨some shape, set.entries.filter fun (key, _) => survives old shape key,
      Keyed.sorted_filter set.sorted _⟩

/-- Gives the set a shape if there is one. -/
def bindOptional (set : ExtensionSet) : Option ExtensionShape → ExtensionSet
  | some shape => set.bind shape
  | none => set

/-! ## Entries -/

/-- Puts a value under a key. -/
def put (set : ExtensionSet) (key : String) (value : ExtensionValue) : ExtensionSet where
  shape := set.shape
  entries := set.entries.insert key value
  sorted := Keyed.sorted_insert set.sorted key value

/-- Sets a declared key to a value of its type. -/
def set (set : ExtensionSet) (key : String) (value : ExtensionValue) :
    Except ExtensionError ExtensionSet := do
  match set.shape with
  | none => throw (.noShape key)
  | some shape => match shape.byKey? key with
    | none => throw (.unknownKey key)
    | some x =>
      if x.type.same value.type then
        return set.put key value
      throw (.typeMismatch key x.type.name value.type.name)

/-- Sets a key to a value that the shape's own decoder has read. -/
def setDecoded (set : ExtensionSet) (key : String) (value : ExtensionValue) : ExtensionSet :=
  set.put key value

/-- The value of a key. -/
def get (set : ExtensionSet) (key : String) : Except ExtensionError ExtensionValue :=
  match set.entries.find? key with
  | some value => .ok value
  | none => .error (.notFound key)

/-- The value of a key that is expected to have a type. -/
def getAs (set : ExtensionSet) (key : String) (type : ExtensionType) :
    Except ExtensionError ExtensionValue := do
  let value ← set.get key
  if value.type.same type then return value
  let declared := (set.shape.bind (·.byKey? key)).map (·.type.name)
  throw (.typeMismatch key type.name (declared.getD "unknown"))

/-- Removes a key. -/
def delete (set : ExtensionSet) (key : String) : ExtensionSet where
  shape := set.shape
  entries := set.entries.erase key
  sorted := Keyed.sorted_erase set.sorted key

def contains (set : ExtensionSet) (key : String) : Bool := set.entries.contains key

def isEmpty (set : ExtensionSet) : Bool := set.entries.isEmpty

/-- Checks every entry in the order of the keys. -/
def validate (set : ExtensionSet) : Validation :=
  set.entries.forM fun (key, value) => Validation.inside (.extension key) value.validate

/-- Equality of data: the same keys with the same values. The shapes do not matter. -/
def same (a b : ExtensionSet) : Bool :=
  a.entries.length == b.entries.length &&
    a.entries.all fun (key, value) =>
      match b.entries.find? key with
      | some other => value.same other
      | none => false

instance : BEq ExtensionSet := ⟨same⟩

/-! ## The wire -/

/-- The wire entry of a field whose key is set. -/
def encodeField (set : ExtensionSet) (f : Form) (x : ExtensionField) :
    Except EncodingError (Option (FieldKey × f.Value)) :=
  match set.entries.find? x.key with
  | none => .ok none
  | some value => match value.encode f with
    | .ok v => .ok (some (x.wire, v))
    | .error e => .error (.extension x.key e.message)

/-- The wire entries in the order of the shape. -/
def encode (set : ExtensionSet) (f : Form) : Except EncodingError (List (FieldKey × f.Value)) :=
  match set.shape with
  | none => .ok []
  | some shape => do return (← shape.fields.mapM (set.encodeField f)).filterMap id

end ExtensionSet

end Rim
