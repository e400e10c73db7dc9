import Rim.Proofs.Octets
import Rim.Uuid

/-!
# UUIDs and hexadecimal digits are read back

* `Hex.decode_encode`: two digits for each octet give the octets back.
* `Uuid.parse_toString`: the hyphenated text of an identifier is read as the identifier.
-/

namespace Rim

namespace Hex

/-! ## Digits -/

theorem digit_lt : ∀ n < 16, (digit n).toNat < 128 := by decide

theorem value?_digit : ∀ n < 16, value? (UInt8.ofNat (digit n).toNat) = some n := by decide

/-- The octets of the digits of a byte string. -/
def digits (bs : Bytes) : Bytes := (bs.flatMap octet).map fun c => UInt8.ofNat c.toNat

@[simp] theorem digits_nil : digits [] = [] := rfl

@[simp] theorem digits_cons (b : UInt8) (rest : Bytes) :
    digits (b :: rest) = UInt8.ofNat (digit (b.toNat / 16)).toNat ::
      UInt8.ofNat (digit (b.toNat % 16)).toNat :: digits rest := rfl

@[simp] theorem digits_append (bs cs : Bytes) : digits (bs ++ cs) = digits bs ++ digits cs := by
  simp [digits]

@[simp] theorem length_digits (bs : Bytes) : (digits bs).length = 2 * bs.length := by
  induction bs with
  | nil => rfl
  | cons b rest ih =>
    simp only [digits_cons, List.length_cons, ih]
    omega

theorem ofString_encode (bs : Bytes) : Bytes.ofString (encode bs) = digits bs := by
  refine Bytes.ofString_ascii fun c hc => ?_
  obtain ⟨b, -, hb⟩ := List.mem_flatMap.1 hc
  have hlt := b.toNat_lt
  simp only [octet, List.mem_cons, List.not_mem_nil, or_false] at hb
  rcases hb with rfl | rfl
  · exact digit_lt _ (by omega)
  · exact digit_lt _ (by omega)

theorem readDigit_digit {n : Nat} (h : n < 16) (offset : Nat) :
    readDigit (UInt8.ofNat (digit n).toNat) offset = .ok n := by
  simp [readDigit, value?_digit n h]

/-- Pair by pair, the digits of a byte string give it back. -/
theorem decodePairs_digits (bs : Bytes) (offset : Nat) :
    decodePairs offset (digits bs) = .ok bs := by
  induction bs generalizing offset with
  | nil => rfl
  | cons b rest ih =>
    have hlt := b.toNat_lt
    have hoctet : UInt8.ofNat (16 * (b.toNat / 16) + b.toNat % 16) = b := by
      rw [Nat.div_add_mod, UInt8.ofNat_toNat]
    rw [digits_cons, decodePairs, readDigit_digit (by omega), readDigit_digit (by omega), ih]
    simp only [bind, Except.bind, hoctet]
    rfl

/-- The text of a byte string is read as the byte string. -/
theorem decode_encode (bs : Bytes) : decode (encode bs) = .ok bs := by
  have heven : (digits bs).length % 2 = 0 := by simp
  simp only [decode, ofString_encode, if_pos heven, decodePairs_digits]

end Hex

namespace Uuid

theorem ofDigits?_digits (u : Uuid) : ofDigits? (Hex.digits u.octets) = some u := by
  have hlength := u.length_octets
  simp [ofDigits?, Hex.decodePairs_digits, hlength]

/-- Five groups with hyphens between them are read as the digits of the groups. -/
theorem ofHyphenated?_groups {a b c d e : Bytes} (ha : a.length = 8) (hb : b.length = 4)
    (hc : c.length = 4) (hd : d.length = 4) :
    ofHyphenated? (a ++ hyphen :: (b ++ hyphen :: (c ++ hyphen :: (d ++ hyphen :: e)))) =
      ofDigits? (a ++ b ++ c ++ d ++ e) := by
  have hdrop {bs : Bytes} (n : Nat) (h : bs.length ≤ n) : bs.drop n = [] :=
    List.drop_eq_nil_of_le h
  simp [ofHyphenated?, List.getD_eq_getElem?_getD, List.getElem?_append,
    List.drop_append, hdrop, ha, hb, hc, hd]

/-- The octets of the hyphenated text. -/
theorem ofString_toString (u : Uuid) :
    Bytes.ofString u.toString =
      Hex.digits (u.octets.take 4) ++ hyphen :: (Hex.digits ((u.octets.drop 4).take 2) ++
        hyphen :: (Hex.digits ((u.octets.drop 6).take 2) ++ hyphen ::
          (Hex.digits ((u.octets.drop 8).take 2) ++ hyphen ::
            Hex.digits ((u.octets.drop 10).take 6)))) := by
  have hdash : Bytes.ofString "-" = [hyphen] := by decide
  have htext : ∀ a b c d e : String,
      "-".intercalate [a, b, c, d, e] = a ++ "-" ++ b ++ "-" ++ c ++ "-" ++ d ++ "-" ++ e :=
    fun _ _ _ _ _ => rfl
  simp [toString, htext, hdash, Hex.ofString_encode]

theorem octets_eq_groups (u : Uuid) :
    u.octets.take 4 ++ (u.octets.drop 4).take 2 ++ (u.octets.drop 6).take 2 ++
      (u.octets.drop 8).take 2 ++ (u.octets.drop 10).take 6 = u.octets := by
  obtain ⟨bs, h⟩ := u
  simp only [← List.take_add, List.take_of_length_le (Nat.le_of_eq h)]

/-- The text of an identifier reads back as the identifier. -/
theorem parse_toString (u : Uuid) : parse u.toString = .ok u := by
  have hlength := u.length_octets
  have hgroups : ofHyphenated? (Bytes.ofString u.toString) = some u := by
    rw [ofString_toString, ofHyphenated?_groups (by simp [hlength]) (by simp [hlength])
      (by simp [hlength]) (by simp [hlength]), ← Hex.digits_append, ← Hex.digits_append,
      ← Hex.digits_append, ← Hex.digits_append, octets_eq_groups, ofDigits?_digits]
  have htext : (Bytes.ofString u.toString).length = 36 := by
    rw [ofString_toString]
    simp [hlength]
  have hnonempty : (Bytes.ofString u.toString).isEmpty = false := by
    rw [List.isEmpty_eq_false_iff]
    intro h
    simp [h] at htext
  simp [parse, hnonempty, htext, hyphenated?, hgroups]

end Uuid

end Rim
