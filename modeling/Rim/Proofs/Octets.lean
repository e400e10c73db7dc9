import Mathlib.Tactic.Ring
import Rim.Bytes

/-!
# Octets of numbers and of plain text

* `Bytes.toNat_bigEndian`: a number that fits a width is read back from its octets.
* `Bytes.ofString_ofList`: the octets of a text are those of its characters, one after the other.
* `Bytes.ofString_ascii`, `Bytes.ofString_ofOctets`: characters below 128 are octets of their own.
-/

namespace Rim

namespace Bytes

/-! ## Fixed-width numbers -/

/-- Octets read after a number shift it to the left. -/
theorem foldl_eq (bs : Bytes) (acc : Nat) :
    bs.foldl (fun acc b => acc * 256 + b.toNat) acc = acc * 256 ^ bs.length + toNat bs := by
  induction bs generalizing acc with
  | nil => simp [toNat]
  | cons b rest ih =>
    have hrest : toNat (b :: rest) = b.toNat * 256 ^ rest.length + toNat rest := by
      show rest.foldl _ (0 * 256 + b.toNat) = _
      rw [ih]
      simp
    show rest.foldl _ (acc * 256 + b.toNat) = _
    rw [ih, hrest, List.length_cons]
    ring

@[simp] theorem toNat_nil : toNat [] = 0 := rfl

theorem toNat_cons (b : UInt8) (rest : Bytes) :
    toNat (b :: rest) = b.toNat * 256 ^ rest.length + toNat rest := by
  show rest.foldl _ (0 * 256 + b.toNat) = _
  rw [foldl_eq]
  simp

/-- What a fixed width keeps of a number. -/
theorem toNat_bigEndian_mod (width n : Nat) : toNat (bigEndian width n) = n % 256 ^ width := by
  induction width with
  | zero => simp [bigEndian, Nat.mod_one]
  | succ width ih =>
    have hshift : n >>> (8 * width) = n / 256 ^ width := by
      rw [Nat.shiftRight_eq_div_pow, Nat.pow_mul]
    rw [bigEndian, toNat_cons, length_bigEndian, ih, hshift, Nat.mod_pow_succ]
    simp only [UInt8.toNat_ofNat', Nat.reducePow]
    ring

/-- A number that fits the width is read back. -/
theorem toNat_bigEndian {width n : Nat} (h : n < 256 ^ width) :
    toNat (bigEndian width n) = n := by
  rw [toNat_bigEndian_mod, Nat.mod_eq_of_lt h]

/-! ## Text -/

theorem ofString_ofList (cs : List Char) :
    ofString (String.ofList cs) = cs.flatMap String.utf8EncodeChar := by
  unfold ofString
  rw [String.toUTF8_eq_toByteArray, String.toByteArray_ofList, List.utf8Encode]
  simp

theorem ofString_eq (s : String) : ofString s = s.toList.flatMap String.utf8EncodeChar := by
  rw [← ofString_ofList, String.ofList_toList]

@[simp] theorem ofString_append (s t : String) : ofString (s ++ t) = ofString s ++ ofString t := by
  simp [ofString_eq]

/-- A character below 128 is one octet. -/
theorem utf8EncodeChar_ascii {c : Char} (h : c.toNat < 128) :
    String.utf8EncodeChar c = [UInt8.ofNat c.toNat] := by
  have hle : c.val.toNat ≤ 0x7f := Nat.le_of_lt_succ h
  simp only [String.utf8EncodeChar, hle, if_true]
  rfl

theorem ofString_ascii {cs : List Char} (h : ∀ c ∈ cs, c.toNat < 128) :
    ofString (String.ofList cs) = cs.map fun c => UInt8.ofNat c.toNat := by
  rw [ofString_ofList]
  induction cs with
  | nil => rfl
  | cons c rest ih =>
    rw [List.flatMap_cons, utf8EncodeChar_ascii (h c (by simp)),
      ih fun d hd => h d (by simp [hd])]
    rfl

/-- A number below 128 is the number of its character. -/
theorem toNat_charOfNat {n : Nat} (h : n < 128) : (Char.ofNat n).toNat = n := by
  have hvalid : n.isValidChar := Or.inl (by omega)
  rw [Char.ofNat, dif_pos hvalid]
  exact UInt32.toNat_ofNatLT

/-- The text whose characters are the given octets, all below 128, has these octets. -/
theorem ofString_ofOctets {bs : Bytes} (h : ∀ b ∈ bs, b.toNat < 128) :
    ofString (String.ofList (bs.map fun b => Char.ofNat b.toNat)) = bs := by
  have hchars : ∀ c ∈ bs.map fun b => Char.ofNat b.toNat, c.toNat < 128 := by
    intro c hc
    obtain ⟨b, hb, rfl⟩ := List.mem_map.1 hc
    rw [toNat_charOfNat (h b hb)]
    exact h b hb
  rw [ofString_ascii hchars, List.map_map]
  conv_rhs => rw [← List.map_id bs]
  refine List.map_congr_left fun b hb => ?_
  show UInt8.ofNat (Char.ofNat b.toNat).toNat = b
  rw [toNat_charOfNat (h b hb), UInt8.ofNat_toNat]

end Bytes

end Rim
