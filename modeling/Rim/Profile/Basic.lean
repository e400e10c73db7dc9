import Rim.Record.UnsignedCorim

/-!
# Profiles

* `Profile`: shapes for the extension points under an identifier, and an optional template for tags.
* `Profile.newTag`, `Profile.newCorim`, `Profile.newRecord`: fresh records with the shapes bound.
-/

namespace Rim

/-- Shapes under an identifier, and an optional template. -/
structure Profile where
  id : ProfileId
  shapes : ExtensionMap
  template : Option Comid := none

namespace Profile

/-- A record graph with the shapes of the profile bound throughout. -/
def bind {R : Type} [Extensible R] (p : Profile) (r : R) : R := Extensible.bind p.shapes r

/-- A tag made from the template. -/
def newTag (p : Profile) : Comid := p.bind (p.template.getD Record.empty)

/-- A manifest that names the profile. -/
def newCorim (p : Profile) : UnsignedCorim :=
  p.bind { (Record.empty : UnsignedCorim) with profile := some p.id }

/-- An empty record. -/
def newRecord (R : Type) [Record R] [Extensible R] (p : Profile) : R := p.bind Record.empty

end Profile

end Rim
