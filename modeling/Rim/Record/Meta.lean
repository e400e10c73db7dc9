import Rim.Record.Validity

/-!
# Signature metadata

* `Signer`: who signs a manifest.
* `Meta`: what travels in the protected header of a signed manifest.
-/

namespace Rim

/-- Who signs a manifest. -/
structure Signer where
  name : Option String := none
  uri : Option String := none
  deriving DecidableEq, Repr

namespace Signer

/-- A name has to be there; a URI, if present, has to be absolute. -/
def validate (s : Signer) : Validation := do
  match s.name with
  | none => throw (.missing "name")
  | some name =>
    Validation.require (name != "") (.empty "name")
    Validation.optionalUri "uri" s.uri

def setUri (s : Signer) (uri : String) : Except ValidationError Signer := do
  Validation.require (Uri.isAbsolute uri) (.notAbsoluteUri "uri" uri)
  return { s with uri := some uri }

def fields : List (Field Signer) :=
  [.of 0 "name" Coding.text.toWire (·.name) fun n s => { s with name := some n },
   .of 1 "uri" Coding.taggedUri.toWire (·.uri) fun u s => { s with uri := some u }]

instance : Record Signer where
  name := "signer"
  fields := fields
  empty := {}
  validate := validate

end Signer

/-- What travels in the protected header of a signed manifest. -/
structure Meta where
  signer : Option Signer := none
  validity : Option Validity := none
  deriving DecidableEq, Repr

namespace Meta

def validate (m : Meta) : Validation := do
  Validation.mandatory "signer" Signer.validate m.signer
  Validation.optional "validity" Validity.validate m.validity

def fields : List (Field Meta) :=
  [.of 0 "signer" (Record.wire Signer) (·.signer) fun s m => { m with signer := some s },
   .of 1 "validity" (Record.wire Validity) (·.validity) fun w m => { m with validity := some w }]

instance : Record Meta where
  name := "meta"
  fields := fields
  empty := {}
  validate := validate

end Meta

end Rim
