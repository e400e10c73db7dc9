import Rim.Bytes
import Rim.Binary64.Basic

/-!
# CBOR items

The data model of the binary wire form.

* `Cbor`: items as trees. Integers keep the 64-bit argument of their head, maps keep the order and
  the repetitions of their entries.
* `Cbor.ofInt64`, `Cbor.toInt`: integers as signed numbers.
* `Cbor.agrees`: equality of data, with floating-point numbers compared as numbers.
-/

namespace Rim

/-- A CBOR item. -/
inductive Cbor where
  /-- The integer `n`. -/
  | uint (n : UInt64)
  /-- The integer `-1 - n`. -/
  | nint (n : UInt64)
  | bytes (bs : Bytes)
  | text (s : String)
  | float (x : Binary64)
  | bool (b : Bool)
  | null
  | tag (number : UInt64) (content : Cbor)
  | array (items : List Cbor)
  | map (entries : List (Cbor × Cbor))

namespace Cbor

instance : Inhabited Cbor := ⟨.null⟩

/-! ## Integers -/

/-- The integer item of a signed 64-bit number. -/
def ofInt64 (n : Int64) : Cbor :=
  if 0 ≤ n.toInt then .uint (UInt64.ofNat n.toInt.toNat)
  else .nint (UInt64.ofNat (-1 - n.toInt).toNat)

/-- The integer item of any number between `-2 ^ 64` and `2 ^ 64 - 1`. -/
def ofInt (n : Int) : Cbor :=
  if 0 ≤ n then .uint (UInt64.ofNat n.toNat) else .nint (UInt64.ofNat (-1 - n).toNat)

/-- The value of an integer item. -/
def toInt? : Cbor → Option Int
  | .uint n => some n.toNat
  | .nint n => some (-1 - n.toNat)
  | _ => none

/-! ## Equality of data -/

mutual

/-- Whether two items hold the same data. Floating-point numbers are compared as numbers, so a NaN
agrees with nothing and the two zeros agree. -/
def agrees : Cbor → Cbor → Bool
  | .uint a, .uint b => a == b
  | .nint a, .nint b => a == b
  | .bytes a, .bytes b => a == b
  | .text a, .text b => a == b
  | .float a, .float b => a.equals b
  | .bool a, .bool b => a == b
  | .null, .null => true
  | .tag t a, .tag u b => t == u && agrees a b
  | .array a, .array b => agreesItems a b
  | .map a, .map b => agreesEntries a b
  | _, _ => false

/-- `agrees` on the items of arrays. -/
def agreesItems : List Cbor → List Cbor → Bool
  | [], [] => true
  | a :: as, b :: bs => agrees a b && agreesItems as bs
  | _, _ => false

/-- `agrees` on the entries of maps, in order. -/
def agreesEntries : List (Cbor × Cbor) → List (Cbor × Cbor) → Bool
  | [], [] => true
  | (k, v) :: as, (l, w) :: bs => agrees k l && agrees v w && agreesEntries as bs
  | _, _ => false

end

end Cbor

end Rim
