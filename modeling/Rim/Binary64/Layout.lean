import Rim.Binary64.Shortest

/-!
# Laying out decimals

How digits and a power of ten become text.

* `Layout`: the choices of one output: where positional notation begins and ends, how an exponent
  is written, how a tie between two shortest decimals is broken, and the words for what is no
  number.
* `Layout.render`: the text of a double under a layout. Positional text always has a point.
-/

namespace Rim

/-- The choices of a number's text. -/
structure Layout where
  /-- The least decimal exponent written positionally. -/
  positionalFrom : Int
  /-- The first decimal exponent that is too large for positional notation. -/
  positionalUntil : Int
  /-- What stands before the digits of an exponent that is not negative. -/
  positiveExponent : String
  tie : Tie
  nanText : String
  infinityText : String

namespace Layout

/-- `count` zeros. -/
def zeros (count : Nat) : String := String.ofList (List.replicate count '0')

/-- A decimal with its point in place; `0` stands before or after the point if nothing else does. -/
def positional (digits : String) (exponent : Int) : String :=
  let length := digits.length
  if 0 ≤ exponent then digits ++ zeros exponent.toNat ++ ".0"
  else
    let places := (-exponent).toNat
    if places < length then
      String.ofList (digits.toList.take (length - places)) ++ "." ++
        String.ofList (digits.toList.drop (length - places))
    else "0." ++ zeros (places - length) ++ digits

/-- One digit, the others after a point, and the exponent of the first. -/
def scientific (layout : Layout) (digits : String) (leading : Int) : String :=
  let mantissa := match digits.toList with
    | [] => "0"
    | [d] => String.ofList [d]
    | d :: rest => String.ofList (d :: '.' :: rest)
  let mark := if 0 ≤ leading then layout.positiveExponent else "-"
  mantissa ++ "e" ++ mark ++ toString leading.natAbs

/-- The text of a finite magnitude. -/
def magnitude (layout : Layout) (x : Binary64) : String :=
  if x.isZero then "0.0"
  else
    let d := x.shortest layout.tie
    let digits := toString d.digits
    let leading := d.exponent + digits.length - 1
    if layout.positionalFrom ≤ leading ∧ leading < layout.positionalUntil then
      positional digits d.exponent
    else layout.scientific digits leading

/-- The text of a double. -/
def render (layout : Layout) (x : Binary64) : String :=
  if x.isNaN then layout.nanText
  else
    let sign := if x.sign then "-" else ""
    sign ++ if x.isInfinite then layout.infinityText else layout.magnitude x

end Layout

end Rim
