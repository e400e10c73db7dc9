import Rim.Proofs.Octets
import Rim.Text.Base64

/-!
# Base64 is read back

* `Base64.decode_encode`: reading the text of a byte string gives the byte string.

The symbols of full quads are read by `decodeQuads` until the last quad, which goes to `decodeLast`
whether it is padded or not.
-/

namespace Rim.Base64

/-! ## Symbols -/

theorem readSymbol_symbol {n : Nat} (h : n < 64) (offset : Nat) :
    readSymbol (symbol n) offset = .ok n := by
  simp [readSymbol, value?_symbol n h]

theorem symbol_ne_pad {n : Nat} (h : n < 64) : symbol n ≠ pad := by
  intro heq
  have hsome := value?_symbol n h
  have hnone : value? pad = none := by decide
  rw [heq, hnone] at hsome
  exact absurd hsome (by simp)

theorem symbol_lt : ∀ n < 64, (symbol n).toNat < 128 := by decide

theorem ofNat_eq {n : Nat} {b : UInt8} (h : n = b.toNat) : UInt8.ofNat n = b := by
  rw [h, UInt8.ofNat_toNat]

/-! ## Quads -/

/-- The last quad with one symbol more in front of the rest. -/
theorem readLastSymbols_symbol {n : Nat} (h : n < 64) (start index : Nat) (rest : Bytes) :
    readLastSymbols start index (symbol n :: rest) =
      (readLastSymbols start (index + 1) rest).map (n :: ·) := by
  rw [readLastSymbols, if_neg (symbol_ne_pad h), readSymbol_symbol h]
  show (do return n :: (← readLastSymbols start (index + 1) rest)) = _
  cases readLastSymbols start (index + 1) rest <;> rfl

/-- Padding from the third position on ends the quad. -/
theorem readLastSymbols_pad {start index : Nat} {rest : Bytes} (hindex : ¬ index < 2)
    (hrest : rest.all (· == pad) = true) : readLastSymbols start index (pad :: rest) = .ok [] := by
  rw [readLastSymbols, if_pos rfl, if_neg hindex, if_pos hrest]

/-- A quad of one octet is filled up with two signs. -/
theorem decodeLast_one (a : UInt8) (start : Nat) :
    decodeLast start (encodeBytes [a]) = .ok [a] := by
  have ha := a.toNat_lt
  have h₁ : a.toNat * 16 / 64 < 64 := by omega
  have h₂ : a.toNat * 16 % 64 < 64 := by omega
  have hread : readLastSymbols start 0 (encodeBytes [a]) =
      .ok [a.toNat * 16 / 64, a.toNat * 16 % 64] := by
    rw [encodeBytes, readLastSymbols_symbol h₁, readLastSymbols_symbol h₂,
      readLastSymbols_pad (by omega) (by decide)]
    rfl
  -- The bits below the octet are zero, as the reader asks.
  have hstray : a.toNat * 16 % 64 % 16 = 0 := by omega
  have hoctet : UInt8.ofNat (a.toNat * 16 / 64 * 4 + a.toNat * 16 % 64 / 16) = a :=
    ofNat_eq (by omega)
  simp only [decodeLast, hread, bind, Except.bind, List.length_cons, List.length_nil, lastOctets,
    hstray, hoctet]
  rfl

/-- A quad of two octets is filled up with one sign. -/
theorem decodeLast_two (a b : UInt8) (start : Nat) :
    decodeLast start (encodeBytes [a, b]) = .ok [a, b] := by
  have ha := a.toNat_lt
  have hb := b.toNat_lt
  generalize hn : a.toNat * 1024 + b.toNat * 4 = n
  have h₁ : n / 4096 < 64 := by omega
  have h₂ : n / 64 % 64 < 64 := by omega
  have h₃ : n % 64 < 64 := by omega
  have hread : readLastSymbols start 0 (encodeBytes [a, b]) =
      .ok [n / 4096, n / 64 % 64, n % 64] := by
    simp only [encodeBytes, hn]
    rw [readLastSymbols_symbol h₁, readLastSymbols_symbol h₂, readLastSymbols_symbol h₃,
      readLastSymbols_pad (by omega) (by decide)]
    rfl
  have hstray : n % 64 % 4 = 0 := by omega
  have hfirst : UInt8.ofNat (n / 4096 * 4 + n / 64 % 64 / 16) = a := ofNat_eq (by omega)
  have hsecond : UInt8.ofNat (n / 64 % 64 % 16 * 16 + n % 64 / 4) = b := ofNat_eq (by omega)
  simp only [decodeLast, hread, bind, Except.bind, List.length_cons, List.length_nil, lastOctets,
    hstray, hfirst, hsecond]
  rfl

/-- The octets of three are in the four numbers of a full quad. -/
theorem lastOctets_full (a b c : UInt8) :
    let n := a.toNat * 65536 + b.toNat * 256 + c.toNat
    lastOctets [n / 262144, n / 4096 % 64, n / 64 % 64, n % 64] = ([a, b, c], 0) := by
  have ha := a.toNat_lt
  have hb := b.toNat_lt
  have hc := c.toNat_lt
  intro n
  have hn : n = a.toNat * 65536 + b.toNat * 256 + c.toNat := rfl
  have hfirst : UInt8.ofNat (n / 262144 * 4 + n / 4096 % 64 / 16) = a := ofNat_eq (by omega)
  have hsecond : UInt8.ofNat (n / 4096 % 64 % 16 * 16 + n / 64 % 64 / 4) = b :=
    ofNat_eq (by omega)
  have hthird : UInt8.ofNat (n / 64 % 64 % 4 * 64 + n % 64) = c := ofNat_eq (by omega)
  simp only [lastOctets, hfirst, hsecond, hthird]

/-- A full quad that is the last one. -/
theorem decodeLast_three (a b c : UInt8) (start : Nat) :
    decodeLast start (encodeBytes [a, b, c]) = .ok [a, b, c] := by
  have ha := a.toNat_lt
  have hoctets := lastOctets_full a b c
  generalize hn : a.toNat * 65536 + b.toNat * 256 + c.toNat = n at hoctets
  have h₁ : n / 262144 < 64 := by have := b.toNat_lt; have := c.toNat_lt; omega
  have h₂ : n / 4096 % 64 < 64 := by omega
  have h₃ : n / 64 % 64 < 64 := by omega
  have h₄ : n % 64 < 64 := by omega
  have hread : readLastSymbols start 0 (encodeBytes [a, b, c]) =
      .ok [n / 262144, n / 4096 % 64, n / 64 % 64, n % 64] := by
    simp only [encodeBytes, hn]
    rw [readLastSymbols_symbol h₁, readLastSymbols_symbol h₂, readLastSymbols_symbol h₃,
      readLastSymbols_symbol h₄]
    rfl
  simp only [decodeLast, hread, bind, Except.bind, List.length_cons, List.length_nil, hoctets]
  simp [encodeBytes]
  rfl

/-! ## Texts -/

theorem encodeBytes_ne_nil {bs : Bytes} (h : bs ≠ []) : encodeBytes bs ≠ [] := by
  match bs, h with
  | [_], _ => simp [encodeBytes]
  | [_, _], _ => simp [encodeBytes]
  | _ :: _ :: _ :: _, _ => simp [encodeBytes]

/-- Quad by quad, the symbols of a byte string give it back. -/
theorem decodeQuads_encodeBytes : ∀ (bs : Bytes) (offset : Nat),
    decodeQuads offset (encodeBytes bs) = .ok bs
  | [], offset => by simp [encodeBytes, decodeQuads]
  | [a], offset => by
    have h := decodeLast_one a offset
    simp only [encodeBytes] at h ⊢
    rw [decodeQuads] <;> simp [h]
  | [a, b], offset => by
    have h := decodeLast_two a b offset
    simp only [encodeBytes] at h ⊢
    rw [decodeQuads] <;> simp [h]
  | [a, b, c], offset => by
    have h := decodeLast_three a b c offset
    simp only [encodeBytes] at h ⊢
    rw [decodeQuads] <;> simp [h]
  | a :: b :: c :: d :: rest, offset => by
    -- A quad follows this one, so it is not the last.
    have ih := decodeQuads_encodeBytes (d :: rest) (offset + 4)
    have hoctets := lastOctets_full a b c
    obtain ⟨next, others, hnext⟩ := List.exists_cons_of_ne_nil
      (encodeBytes_ne_nil (List.cons_ne_nil d rest))
    have ha := a.toNat_lt
    have hb := b.toNat_lt
    have hc := c.toNat_lt
    rw [encodeBytes, hnext]
    generalize hn : a.toNat * 65536 + b.toNat * 256 + c.toNat = n at hoctets
    rw [decodeQuads, readSymbol_symbol (by omega), readSymbol_symbol (by omega),
      readSymbol_symbol (by omega), readSymbol_symbol (by omega), ← hnext, ih]
    simp only [bind, Except.bind, hoctets]
    rfl

/-- Quads are whole. -/
theorem length_encodeBytes_mod : ∀ bs : Bytes, (encodeBytes bs).length % 4 = 0
  | [] => rfl
  | [_] => by simp [encodeBytes]
  | [_, _] => by simp [encodeBytes]
  | _ :: _ :: _ :: rest => by
    have := length_encodeBytes_mod rest
    simp only [encodeBytes, List.length_cons]
    omega

theorem encodeBytes_lt : ∀ (bs : Bytes), ∀ b ∈ encodeBytes bs, b.toNat < 128
  | [], _, h => by simp [encodeBytes] at h
  | [a], b, h => by
    have ha := a.toNat_lt
    simp only [encodeBytes, List.mem_cons, List.not_mem_nil, or_false] at h
    rcases h with rfl | rfl | rfl | rfl
    · exact symbol_lt _ (by omega)
    · exact symbol_lt _ (by omega)
    · decide
    · decide
  | [a, c], b, h => by
    have ha := a.toNat_lt
    have hc := c.toNat_lt
    simp only [encodeBytes, List.mem_cons, List.not_mem_nil, or_false] at h
    rcases h with rfl | rfl | rfl | rfl
    · exact symbol_lt _ (by omega)
    · exact symbol_lt _ (by omega)
    · exact symbol_lt _ (by omega)
    · decide
  | a :: c :: d :: rest, b, h => by
    have ha := a.toNat_lt
    have hc := c.toNat_lt
    have hd := d.toNat_lt
    simp only [encodeBytes, List.mem_cons] at h
    rcases h with rfl | rfl | rfl | rfl | h
    · exact symbol_lt _ (by omega)
    · exact symbol_lt _ (by omega)
    · exact symbol_lt _ (by omega)
    · exact symbol_lt _ (by omega)
    · exact encodeBytes_lt rest b h

/-- The text of a byte string reads back as the byte string. -/
theorem decode_encode (bs : Bytes) : decode (encode bs) = .ok bs := by
  have hoctets : Bytes.ofString (encode bs) = encodeBytes bs :=
    Bytes.ofString_ofOctets (encodeBytes_lt bs)
  have hwhole := length_encodeBytes_mod bs
  unfold decode
  simp only [hoctets]
  rw [if_neg (by omega)]
  exact decodeQuads_encodeBytes bs 0

end Rim.Base64
