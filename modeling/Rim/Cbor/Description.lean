import Rim.Binary64.Layout
import Rim.Cbor.Basic
import Rim.Text.Quoted

/-!
# CBOR items in messages

* `Cbor.describe`: an item with the names of its kinds, as messages show what was found.
-/

namespace Rim.Cbor

/-- Numbers in messages: positional from 0.0001 to below ten to the sixteenth, and a tie between
two shortest decimals goes to the larger. -/
def numberLayout : Layout where
  positionalFrom := -4
  positionalUntil := 16
  positiveExponent := ""
  tie := .up
  nanText := "NaN"
  infinityText := "inf"

example : numberLayout.render ⟨0x3ff8000000000000⟩ = "1.5" ∧
    numberLayout.render ⟨0x4341c37937e08000⟩ = "1e16" ∧
    numberLayout.render ⟨0x3ee4f8b588e368f1⟩ = "1e-5" := by decide +kernel

mutual

/-- An item with the names of its kinds. -/
def describe : Cbor → String
  | .uint n => s!"Integer(Integer({n.toNat}))"
  | .nint n => s!"Integer(Integer({-1 - (n.toNat : Int)}))"
  | .bytes bs => "Bytes([" ++ Text.listing (bs.map fun b => toString b.toNat) ++ "])"
  | .text s => s!"Text({Text.quote s})"
  | .float x => s!"Float({numberLayout.render x})"
  | .bool b => s!"Bool({b})"
  | .null => "Null"
  | .tag number content => s!"Tag({number.toNat}, {describe content})"
  | .array items => "Array([" ++ Text.listing (describeItems items) ++ "])"
  | .map entries => "Map([" ++ Text.listing (describeEntries entries) ++ "])"

/-- The items of an array, one by one. -/
def describeItems : List Cbor → List String
  | [] => []
  | v :: rest => describe v :: describeItems rest

/-- The entries of a map, one by one. -/
def describeEntries : List (Cbor × Cbor) → List String
  | [] => []
  | (k, v) :: rest => s!"({describe k}, {describe v})" :: describeEntries rest

end

end Rim.Cbor
