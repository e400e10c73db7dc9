import Rim.Choice.Wire
import Rim.Extension.Set
import Rim.Profile.Id
import Rim.Wire.Decoding

/-!
# Wires

* `Scope`: what decoding depends on: the table of variants, the shapes of the registered profiles,
  the shapes in force, and whether unknown fields are errors.
* `Wire`: how the values of a type are written and read where they are part of a record.
* `Coding.toWire`, `Wire.choice`, `Wire.list`: wires of values without context, of type choices and
  of lists.
-/

namespace Rim

/-- What decoding depends on. -/
structure Scope where
  types : TypeTable
  /-- The shapes of a registered profile. -/
  profiles : ProfileId → Option ExtensionMap
  /-- The shapes in force. -/
  bindings : ExtensionMap
  /-- Unknown fields are errors. -/
  strict : Bool

namespace Scope

/-- The scope of a record that may name its own profile: a registered one replaces the shapes in
force. -/
def scopedTo (sc : Scope) (id : Option ProfileId) : Scope :=
  match id.bind sc.profiles with
  | some shapes => { sc with bindings := shapes }
  | none => sc

/-- Passes over an unknown field, or refuses it. -/
def skipUnknown (sc : Scope) (record key : String) : Decoding Unit :=
  if sc.strict then Decoding.fail (.unknownField record key) else Decoding.skip

end Scope

/-- How the values of a type are written and read inside records. Writing depends on the table of
variants only. -/
structure Wire (α : Type) where
  encode : (f : Form) → TypeTable → α → Except EncodingError f.Value
  decode : (f : Form) → Scope → f.Value → Decoding α

/-- A coding used inside records. -/
def Coding.toWire {α : Type} (c : Coding α) : Wire α where
  encode f _ x := c.encode f x
  decode f _ v := Decoding.ofExcept (c.decode f v)

namespace Wire

/-- The type choices of a family. -/
def choice (family : Family) : Wire ChoiceValue where
  encode f types value := Choice.encode types family f value
  decode f sc v := Decoding.ofExcept (Choice.decode sc.types family f v)

/-- Lists of values. -/
def list {α : Type} (w : Wire α) : Wire (List α) where
  encode f types xs := return f.array (← xs.mapM (w.encode f types))
  decode f sc v := do
    let items ← Decoding.ofExcept (f.elements v)
    Decoding.list (w.decode f sc) items

end Wire

end Rim
