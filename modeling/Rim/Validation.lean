/-!
# Validation

How a value reports that it is not fit to be written.

* `PathSegment`, `Cause`, `ValidationError`: where a violation lies, and what it is.
* `Validation`: the result of a check.
* `Validation.list`, `Validation.optional`, `Validation.nonEmpty`: checks of children, which add the
  step to the child to the path of its violation.
-/

namespace Rim

/-- One step from a value to a part of it. -/
inductive PathSegment where
  /-- A field, by its name in the text form. -/
  | field (name : String)
  /-- An element of a list. -/
  | index (list : String) (index : Nat)
  /-- An entry of an extension set. -/
  | extension (key : String)
  /-- The payload of a variant, by its type tag. -/
  | variant (typeTag : String)
  deriving DecidableEq, Repr

/-- What is wrong at the end of a path. -/
inductive Cause where
  /-- A mandatory field is absent. -/
  | missingField (name : String)
  /-- Something is present but empty. -/
  | empty (what : String)
  /-- Any other violation. -/
  | invalid (message : String)
  deriving DecidableEq, Repr

/-- A violation and the path to it, the outermost step first. -/
structure ValidationError where
  cause : Cause
  path : List PathSegment
  deriving DecidableEq, Repr

/-- The result of a check. -/
abbrev Validation := Except ValidationError Unit

/-- The text of a step. -/
def PathSegment.message : PathSegment → String
  | .field name => name
  | .index list i => s!"index {i} of {list}"
  | .extension key => s!"extension {key}"
  | .variant typeTag => s!"{typeTag} value"

/-- The text of a cause. -/
def Cause.message : Cause → String
  | .missingField name => s!"missing mandatory field {name}"
  | .empty what => s!"empty {what}"
  | .invalid message => message

namespace ValidationError

def missing (field : String) : ValidationError := ⟨.missingField field, []⟩

def empty (what : String) : ValidationError := ⟨.empty what, []⟩

def invalid (message : String) : ValidationError := ⟨.invalid message, []⟩

/-- The violation as seen from one step further out. -/
def within (segment : PathSegment) (e : ValidationError) : ValidationError :=
  { e with path := segment :: e.path }

/-- The steps and the cause, with colons between them. -/
def message (e : ValidationError) : String :=
  String.join (e.path.map fun segment => segment.message ++ ": ") ++ e.cause.message

end ValidationError

namespace Validation

/-- A check of a part, seen from the whole. -/
def inside (segment : PathSegment) (check : Validation) : Validation :=
  check.mapError (·.within segment)

/-- A check of a field. -/
def field (name : String) (check : Validation) : Validation := inside (.field name) check

/-- Fails unless the condition holds. -/
def require (condition : Bool) (e : ValidationError) : Validation :=
  if condition then .ok () else .error e

/-- Checks the elements of a list from the given index on; the first violation counts. -/
def listFrom {α : Type} (name : String) (check : α → Validation) : (index : Nat) → List α → Validation
  | _, [] => .ok ()
  | index, x :: rest => do
    inside (.index name index) (check x)
    listFrom name check (index + 1) rest

/-- Checks the elements of a list in order. -/
def list {α : Type} (name : String) (check : α → Validation) (xs : List α) : Validation :=
  listFrom name check 0 xs

/-- Checks a field that may be absent. -/
def optional {α : Type} (name : String) (check : α → Validation) : Option α → Validation
  | some x => field name (check x)
  | none => .ok ()

/-- A text that is present must not be empty. -/
def nonEmpty (name : String) (text : Option String) : Validation :=
  require (text != some "") (.empty name)

/-- Checks a field that must be present. -/
def mandatory {α : Type} (name : String) (check : α → Validation) : Option α → Validation
  | some x => field name (check x)
  | none => .error (.missing name)

end Validation

end Rim
