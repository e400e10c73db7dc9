/-!
# Byte strings

The carrier of every binary form in this library.

* `Bytes`: lists of octets, so that readers are recursions on the data.
* `Bytes.ofString`, `Bytes.toString?`: UTF-8, and its partial inverse.
* `Bytes.bigEndian`, `Bytes.toNat`: fixed-width numbers, most significant octet first.
-/

namespace Rim

/-- A finite sequence of octets. -/
abbrev Bytes := List UInt8

namespace Bytes

/-! ## Text -/

/-- The UTF-8 octets of a string. -/
def ofString (s : String) : Bytes := s.toUTF8.data.toList

/-- The string that a sequence of octets spells, if the octets are valid UTF-8. -/
def toString? (bs : Bytes) : Option String := String.fromUTF8? ⟨bs.toArray⟩

/-- Writing a string and reading it back gives the string. -/
@[simp] theorem toString?_ofString (s : String) : toString? (ofString s) = some s := by
  have h : (⟨s.toUTF8.data.toList.toArray⟩ : ByteArray) = s.toUTF8 := by
    cases s.toUTF8; simp
  unfold toString? ofString String.fromUTF8?
  rw [h, String.toUTF8_eq_toByteArray, dif_pos s.isValidUTF8]
  rfl

/-! ## Fixed-width numbers -/

/-- The low `width` octets of `n`, most significant first. -/
def bigEndian : (width : Nat) → (n : Nat) → Bytes
  | 0, _ => []
  | width + 1, n => UInt8.ofNat (n >>> (8 * width)) :: bigEndian width n

/-- The number that a sequence of octets spells, most significant first. -/
def toNat (bs : Bytes) : Nat := bs.foldl (fun acc b => acc * 256 + b.toNat) 0

@[simp] theorem length_bigEndian (width n : Nat) : (bigEndian width n).length = width := by
  induction width with
  | zero => rfl
  | succ w ih => simp [bigEndian, ih]

/-- The shortest big-endian spelling: no leading zero octet. -/
def minimal (bs : Bytes) : Bytes := bs.dropWhile (· == 0)

end Bytes

end Rim
