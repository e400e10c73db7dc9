import Rim.Extension.Shape
import Rim.Keyed

/-!
# Binding shapes to points

* `ExtensionMap`: at most one shape for each point, sorted by the names of the points. Other names
  of a point stand for the point itself.
* `ExtensionMap.add`, `ExtensionMap.replace`, `ExtensionMap.overlay`: the ways to change one.
-/

namespace Rim

/-- A point with the shape bound to it. -/
structure Binding where
  point : ExtensionPoint
  shape : ExtensionShape

/-- Shapes by the names of their points. -/
structure ExtensionMap where
  bindings : Keyed Binding
  /-- Each name stands once, and in order. -/
  sorted : bindings.Sorted

namespace ExtensionMap

def empty : ExtensionMap := ⟨[], Keyed.sorted_nil⟩

/-- The shape bound to a point. -/
def find? (m : ExtensionMap) (point : ExtensionPoint) : Option ExtensionShape :=
  (Keyed.find? point.canonical.name m.bindings).map (·.shape)

/-- Puts a shape at a canonical point. A point that is already there stays as it was declared. -/
def put (m : ExtensionMap) (point : ExtensionPoint) (shape : ExtensionShape) : ExtensionMap :=
  let kept := ((Keyed.find? point.name m.bindings).map (·.point)).getD point
  ⟨Keyed.insert point.name ⟨kept, shape⟩ m.bindings, Keyed.sorted_insert m.sorted _ _⟩

/-- Binds a shape to a point. A second shape for a point has to be the same. -/
def add (m : ExtensionMap) (point : ExtensionPoint) (shape : ExtensionShape) :
    Except ExtensionError ExtensionMap := do
  let point := point.canonical
  shape.checkAgainst point
  match Keyed.find? point.name m.bindings with
  | some b => if b.shape.same shape then return m else throw (.duplicatePoint point.name)
  | none => return m.put point shape

/-- Binds a shape to a point in the place of any other. -/
def replace (m : ExtensionMap) (point : ExtensionPoint) (shape : ExtensionShape) :
    Except ExtensionError ExtensionMap := do
  let point := point.canonical
  shape.checkAgainst point
  return m.put point shape

/-- Takes over every binding of another map. -/
def overlay (m other : ExtensionMap) : ExtensionMap :=
  other.bindings.foldl (fun m (_, b) => m.put b.point b.shape) m

/-- The points in the order of their names. -/
def points (m : ExtensionMap) : List ExtensionPoint := m.bindings.map fun (_, b) => b.point

def length (m : ExtensionMap) : Nat := m.bindings.length

/-- Whether two maps bind the same shapes to the same points. -/
def same (m n : ExtensionMap) : Bool :=
  m.length == n.length &&
    m.bindings.all fun (name, b) =>
      match Keyed.find? name n.bindings with
      | some c => c.shape.same b.shape
      | none => false

end ExtensionMap

end Rim
