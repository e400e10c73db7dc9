import Rim.Schema.Wire

/-!
# Records

Every record has a binary form, a map with integer keys, and a text form, an object with named
members. Its fixed fields are described once for both; its extension fields come from the shape that
is in force for its extension point.

* `Field`: a fixed field: its key, its wire, and its place in the record.
* `Record`: the description of a kind of record.
* `Record.encode`, `Record.decode`: records in both forms.
* `Record.wire`: records inside other records.
-/

namespace Rim

/-- A fixed field of a kind of record: its key, the wire of its content, and its place in the
record. -/
structure Field (R : Type) where
  key : FieldKey
  {Content : Type}
  wire : Wire Content
  /-- The content to write, if the field is present. -/
  get : R → Option Content
  /-- Stores a content that has been read. -/
  set : Content → R → R

namespace Field

variable {R : Type}

/-- A field that is written when `get` gives a content, and stored by `set`. -/
def of {α : Type} (slot : Int64) (name : String) (wire : Wire α) (get : R → Option α)
    (set : α → R → R) : Field R where
  key := ⟨slot, name⟩
  wire := wire
  get := get
  set := set

/-- The value to write, if the field is present. -/
def encode (x : Field R) (f : Form) (types : TypeTable) (r : R) :
    Option (Except EncodingError f.Value) :=
  (x.get r).map (x.wire.encode f types)

/-- What a value on the wire does to the record. -/
def decode (x : Field R) (f : Form) (sc : Scope) (v : f.Value) : Decoding (R → R) :=
  return x.set (← x.wire.decode f sc v)

end Field

/-- Lists that are not written when they are empty. -/
def present? {α : Type} (xs : List α) : Option (List α) := if xs.isEmpty then none else some xs

/-- How a kind of record holds its extensions. -/
structure ExtensionHost (R : Type) where
  /-- The name of the extension point. -/
  pointName : String
  get : R → ExtensionSet
  set : ExtensionSet → R → R

/-- The description of a kind of record. -/
class Record (R : Type) where
  /-- The name in messages. -/
  name : String
  /-- The fixed fields in the order in which they are written. -/
  fields : List (Field R)
  /-- The record without any field. -/
  empty : R
  validate : R → Validation
  /-- Where the extensions are, if the kind of record can be extended. -/
  host : Option (ExtensionHost R) := none
  /-- The field that names the profile of the record and all it holds. -/
  profileField : Option FieldKey := none
  /-- What is read of a value before it is refused for want of a field. -/
  readStray : (f : Form) → Scope → f.Value → Decoding Unit := fun _ _ _ => pure ()

namespace Record

variable {R : Type} [Record R]

/-- The fixed field with a key of a form. -/
def field? (R : Type) [Record R] (f : Form) (key : f.Key) : Option (Field R) :=
  (fields (R := R)).find? fun x => f.keyOf x.key = key

/-- The extension point of a kind of record. -/
def point? (R : Type) [Record R] : Option ExtensionPoint :=
  (host (R := R)).map fun h => .own h.pointName ((fields (R := R)).map (·.key))

/-! ## Shapes -/

/-- The shape that a map holds for the kind of record. -/
def shape? (R : Type) [Record R] (m : ExtensionMap) : Option ExtensionShape :=
  (point? R).bind m.find?

/-- Changes the extension set of a record, if it has one. -/
def mapExtensions (change : ExtensionSet → ExtensionSet) (r : R) : R :=
  match host (R := R) with
  | some h => h.set (change (h.get r)) r
  | none => r

/-- Gives the record's own set the shape of a map. -/
def bindOwn (m : ExtensionMap) (r : R) : R :=
  mapExtensions (·.bindOptional (shape? R m)) r

/-! ## Writing -/

/-- The wire entries of the fixed fields that are present. -/
def encodeFields (f : Form) (types : TypeTable) (r : R) :
    List (Field R) → Except EncodingError (List (FieldKey × f.Value))
  | [] => .ok []
  | x :: rest =>
    match x.encode f types r with
    | none => encodeFields f types r rest
    | some result => do
      let v ← result
      return (x.key, v) :: (← encodeFields f types r rest)

/-- The wire entries of the extensions. -/
def encodeExtensions (f : Form) (r : R) : Except EncodingError (List (FieldKey × f.Value)) :=
  match host (R := R) with
  | some h => (h.get r).encode f
  | none => .ok []

/-- The record in a form: the fixed fields, then the extensions. It is not validated. -/
def encode (f : Form) (types : TypeTable) (r : R) : Except EncodingError f.Value := do
  let fixed ← encodeFields f types r fields
  let extensions ← encodeExtensions f r
  return f.record (fixed ++ extensions)

/-! ## Reading -/

/-- The profile that the entries of a record name, whatever the place of the field. -/
def profileHint (R : Type) [Record R] (f : Form) (entries : List (f.RawKey × f.Value)) :
    Option ProfileId := do
  let k ← profileField (R := R)
  let (_, v) ← entries.find? fun (raw, _) => match f.readKey raw with
    | .ok key => key = f.keyOf k
    | .error _ => false
  (ProfileId.coding.decode f v).toOption

/-- Reads the value of one key into the record. -/
def decodeEntry (f : Form) (sc : Scope) (key : f.Key) (v : f.Value) (r : R) : Decoding R :=
  match field? R f key with
  | some x => do
    let store ← (x.decode f sc v).mapError (.field x.key.name)
    return store r
  | none =>
    match (shape? R sc.bindings).bind (·.byWire? f key) with
    | some x => do
      let value ← Decoding.ofExcept (x.decode f v)
      return mapExtensions (·.setDecoded x.key value) r
    | none => do
      sc.skipUnknown (name R) (f.keyText key)
      return r

/-- Reads entries one after the other. No key may come twice. -/
def decodeEntries (f : Form) (sc : Scope) :
    (seen : List f.Key) → List (f.RawKey × f.Value) → R → Decoding R
  | _, [], r => return r
  | seen, (raw, v) :: rest, r => do
    let key ← Decoding.ofExcept (f.readKey raw)
    if key ∈ seen then Decoding.fail (.duplicateField (name R) (f.keyText key))
    else
      let r ← decodeEntry f sc key v r
      decodeEntries f sc (key :: seen) rest r

/-- Reads a record. Its set gets the shape in force before anything is read. -/
def decode (f : Form) (sc : Scope) (v : f.Value) : Decoding R := do
  let entries ← Decoding.ofExcept (f.members v)
  -- The profile may stand behind the fields it decides about, so it is looked for first.
  let sc := sc.scopedTo (profileHint R f entries)
  decodeEntries f sc [] entries (bindOwn sc.bindings empty)

/-- Reads the value of a single fixed field into a record; any other key is refused. -/
def decodeField (f : Form) (sc : Scope) (key : f.Key) (v : f.Value) (r : R) : Decoding R :=
  match field? R f key with
  | some x => do
    let store ← x.decode f sc v
    return store r
  | none => do
    readStray (R := R) f sc v
    Decoding.fail (.unknownField (name R) (f.keyText key))

/-- Records inside other records. -/
def wire (R : Type) [Record R] : Wire R where
  encode f types r := encode f types r
  decode f sc v := decode f sc v

end Record

/-- Graphs of records that can be given the shapes of a map throughout. -/
class Extensible (R : Type) where
  bind : ExtensionMap → R → R

end Rim
