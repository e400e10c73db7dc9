import Rim.Binary64.Layout

/-!
# JSON values

The data model of the text wire form.

* `Json.Number`: integers of 64 bits, and doubles for every other number.
* `Json`: values; objects keep the order of their members and hold each name once.
* `Json.Members`: operations on the members of an object.
-/

namespace Rim

/-- A number. Integers from `-2 ^ 63` to `2 ^ 64 - 1` written without fraction and exponent are
kept exactly; everything else is a finite double. -/
inductive Json.Number where
  /-- An integer from zero on. -/
  | natural (n : UInt64)
  /-- A negative integer. -/
  | negative (n : Int64)
  | double (x : Binary64)
  deriving DecidableEq, Repr

/-- A JSON value. -/
inductive Json where
  | null
  | bool (b : Bool)
  | number (n : Json.Number)
  | string (s : String)
  | array (items : List Json)
  | object (members : List (String × Json))

namespace Json

instance : Inhabited Json := ⟨.null⟩

/-! ## Numbers -/

namespace Number

/-- The number of an unsigned integer. -/
def ofUInt64 (n : UInt64) : Number := .natural n

/-- The number of a signed integer. -/
def ofInt64 (n : Int64) : Number :=
  if 0 ≤ n.toInt then .natural (UInt64.ofNat n.toInt.toNat) else .negative n

/-- The value of an integer from zero on. -/
def toUInt64? : Number → Option UInt64
  | .natural n => some n
  | _ => none

/-- The value of an integer of 63 bits and a sign. -/
def toInt64? : Number → Option Int64
  | .natural n => if n < 0x8000000000000000 then some (Int64.ofNat n.toNat) else none
  | .negative n => some n
  | .double _ => none

/-- Doubles are written positionally from 0.00001 to below ten to the sixteenth; an exponent always
has a sign, and a tie between two shortest decimals goes to the even one. -/
def layout : Layout where
  positionalFrom := -5
  positionalUntil := 16
  positiveExponent := "+"
  tie := .even
  nanText := "null"
  infinityText := "null"

/-- The text of a number. -/
def render : Number → String
  | .natural n => toString n.toNat
  | .negative n => toString n.toInt
  | .double x => layout.render x

example : render (.double ⟨0x4341c37937e08000⟩) = "1e+16" ∧
    render (.double ⟨0x3ee4f8b588e368f1⟩) = "0.00001" ∧
    render (.double ⟨0x8000000000000000⟩) = "-0.0" := by decide +kernel

end Number

/-! ## Members of objects -/

/-- The members of an object in order. -/
abbrev Members := List (String × Json)

namespace Members

/-- The value of a member. -/
def find? (name : String) : Members → Option Json
  | [] => none
  | (n, v) :: rest => if n = name then some v else find? name rest

/-- Puts a member last, or in the place of the member that has its name. -/
def insert (name : String) (value : Json) : Members → Members
  | [] => [(name, value)]
  | (n, v) :: rest => if n = name then (n, value) :: rest else (n, v) :: insert name value rest

/-- Takes a member out. The last member moves into its place. -/
def remove? (name : String) : Members → Option (Json × Members)
  | [] => none
  | (n, v) :: rest =>
    if n = name then
      match rest.getLast? with
      | none => some (v, [])
      | some last => some (v, last :: rest.dropLast)
    else (remove? name rest).map fun (w, others) => (w, (n, v) :: others)

/-- The members of a list of pairs, put in one after the other. -/
def ofList (pairs : List (String × Json)) : Members :=
  pairs.foldl (fun members (name, value) => insert name value members) []

/-- Putting a member in makes its value be found. -/
@[simp] theorem find?_insert_self (name : String) (value : Json) (members : Members) :
    find? name (insert name value members) = some value := by
  induction members with
  | nil => simp [insert, find?]
  | cons m rest ih =>
    obtain ⟨n, v⟩ := m
    unfold insert
    split
    next h => simp [find?, h]
    next h => simp [find?, h, ih]

end Members

end Json

end Rim
