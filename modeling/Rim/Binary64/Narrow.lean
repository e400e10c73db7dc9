import Rim.Binary64.Basic

/-!
# Shorter floating-point formats

Half and single precision, as formats with fewer bits that embed into the doubles.

* `Format`: the widths of the exponent and the fraction; `half` and `single`.
* `Format.widen`: the double with the same value.
* `Format.narrow?`: the short pattern of a double, when no bit of it is lost.
-/

namespace Rim.Binary64

/-- An interchange format by the widths of its fields. -/
structure Format where
  exponentBits : Nat
  fractionBits : Nat

/-- Half precision: 5 and 10 bits. -/
def half : Format := ⟨5, 10⟩

/-- Single precision: 8 and 23 bits. -/
def single : Format := ⟨8, 23⟩

namespace Format

/-- The bias of the exponent. -/
def bias (f : Format) : Nat := (1 <<< (f.exponentBits - 1)) - 1

/-- The biased exponent of infinities and NaNs. -/
def top (f : Format) : Nat := (1 <<< f.exponentBits) - 1

/-- The double with the value of a pattern of the format. A NaN keeps its fraction and becomes
quiet; a magnitude below the normal range is a multiple of the format's least one. -/
def widen (f : Format) (pattern : Nat) : Binary64 :=
  let sign := (pattern >>> (f.exponentBits + f.fractionBits)) % 2 = 1
  let e := (pattern >>> f.fractionBits) % (1 <<< f.exponentBits)
  let m := pattern % (1 <<< f.fractionBits)
  if e = f.top then
    if m = 0 then ofFields sign 2047 0
    else ofFields sign 2047 (quietBit ||| (m <<< (52 - f.fractionBits)))
  else if e = 0 then
    if m = 0 then ofFields sign 0 0
    else
      let k := Nat.log2 m
      ofFields sign (k + 1024 - f.bias - f.fractionBits) ((m - (1 <<< k)) <<< (52 - k))
  else ofFields sign (e + 1023 - f.bias) (m <<< (52 - f.fractionBits))

/-- The pattern that cuts a double down to the format, without regard to what is lost. -/
def truncate (f : Format) (x : Binary64) : Nat :=
  let signBit := if x.sign then 1 <<< (f.exponentBits + f.fractionBits) else 0
  let e : Int := (x.exponentField : Int) - 1023 + f.bias
  if x.exponentField = 2047 then
    signBit + (f.top <<< f.fractionBits) + (x.fraction >>> (52 - f.fractionBits))
  else if e ≥ f.top then signBit + (f.top <<< f.fractionBits)
  else if e ≥ 1 then
    signBit + (e.toNat <<< f.fractionBits) + (x.fraction >>> (52 - f.fractionBits))
  else signBit + (x.significand >>> (53 - f.fractionBits + (-e).toNat))

/-- The pattern of a double in the format, if it has one. -/
def narrow? (f : Format) (x : Binary64) : Option Nat :=
  let pattern := f.truncate x
  if f.widen pattern = x then some pattern else none

end Format

example : half.widen 0x3e00 = ⟨0x3ff8000000000000⟩ ∧ half.widen 1 = ⟨0x3e70000000000000⟩ := by
  decide +kernel

example : half.narrow? ⟨0x3e70000000000000⟩ = some 1 ∧ half.narrow? ⟨0x40f86a0000000000⟩ = none := by
  decide +kernel

example : single.narrow? ⟨0x40f86a0000000000⟩ = some 0x47c35000 := by decide +kernel

/-- A quiet NaN is narrowed when the bits it loses are zero, a signalling one never. -/
example : half.narrow? nan = some 0x7e00 ∧ single.narrow? ⟨0x7ff8000020000000⟩ = some 0x7fc00001 ∧
    single.narrow? ⟨0x7ff8000000000001⟩ = none ∧ half.narrow? ⟨0x7ff0040000000000⟩ = none := by
  decide +kernel

end Rim.Binary64
