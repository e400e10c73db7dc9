import Rim.Cbor.Expect
import Rim.Cbor.Writer
import Rim.Proofs.Octets

/-!
# CBOR items are read back

* `Cbor.Readable`: items of bounded depth that the reader does not take for something else. Left
  out are floating-point numbers, and short byte strings under the tags of big numbers where the
  number read is another item.
* `Cbor.readItem_write`: a readable item is read from the front of its octets, whatever follows.
* `Cbor.parse_write`: the octets of a readable item are the item.
* `Cbor.parse_write_tag_iff`: no byte string under a tag is left out that would be read back.

Lengths have to fit into 64 bits, which is said of the octets of the whole item.
-/

namespace Rim.Cbor

/-- A short byte string under the tag of a big number, for which the number is no other way of
writing the same item. -/
def IsShortNumber (number : UInt64) (content : Cbor) : Prop :=
  (number = 2 ∨ number = 3) ∧ ∃ bs, content = .bytes bs ∧ bs.length ≤ 16 ∧
    bigNumber (number = 3) bs ≠ some (.tag number content)

/-- Items that nest at most a number of levels and hold neither floating-point numbers nor short
byte strings that are read as numbers. -/
inductive Readable : Nat → Cbor → Prop where
  | uint {d : Nat} (n : UInt64) : Readable d (.uint n)
  | nint {d : Nat} (n : UInt64) : Readable d (.nint n)
  | bytes {d : Nat} (bs : Bytes) : Readable d (.bytes bs)
  | text {d : Nat} (s : String) : Readable d (.text s)
  | bool {d : Nat} (b : Bool) : Readable d (.bool b)
  | null {d : Nat} : Readable d .null
  | tag {d : Nat} {number : UInt64} {content : Cbor} :
    ¬ IsShortNumber number content → Readable d content → Readable (d + 1) (.tag number content)
  | array {d : Nat} {items : List Cbor} :
    (∀ v ∈ items, Readable d v) → Readable (d + 1) (.array items)
  | map {d : Nat} {entries : List (Cbor × Cbor)} :
    (∀ e ∈ entries, Readable d e.1) → (∀ e ∈ entries, Readable d e.2) →
      Readable (d + 1) (.map entries)

/-- More levels do no harm. -/
theorem Readable.mono {d e : Nat} {v : Cbor} (h : Readable d v) (hle : d ≤ e) : Readable e v := by
  induction h generalizing e with
  | uint n => exact .uint n
  | nint n => exact .nint n
  | bytes bs => exact .bytes bs
  | text s => exact .text s
  | bool b => exact .bool b
  | null => exact .null
  | tag hshort _ ih =>
    obtain ⟨e, rfl⟩ : ∃ k, e = k + 1 := ⟨e - 1, by omega⟩
    exact .tag hshort (ih (by omega))
  | array _ ih =>
    obtain ⟨e, rfl⟩ : ∃ k, e = k + 1 := ⟨e - 1, by omega⟩
    exact .array fun v hv => ih v hv (by omega)
  | map _ _ ihk ihv =>
    obtain ⟨e, rfl⟩ : ∃ k, e = k + 1 := ⟨e - 1, by omega⟩
    exact .map (fun x hx => ihk x hx (by omega)) fun x hx => ihv x hx (by omega)

/-! ## Heads -/

theorem take_append (bs rest : Bytes) : take bs.length (bs ++ rest) = some (bs, rest) := by
  simp [take]

/-- The parts of the first octet of a head. -/
theorem first_parts {major info : Nat} (hmajor : major < 8) (hinfo : info < 32) :
    (UInt8.ofNat (32 * major + info)).toNat / 32 = major ∧
      (UInt8.ofNat (32 * major + info)).toNat % 32 = info := by
  simp only [UInt8.toNat_ofNat', Nat.reducePow]
  omega

/-- A head whose argument is part of its first octet. -/
theorem readHead_short {major argument : Nat} (hmajor : major < 8) (hshort : argument < 24)
    (rest : Bytes) :
    readHead (UInt8.ofNat (32 * major + argument) :: rest) =
      some (⟨major, argument, some argument⟩, rest) := by
  obtain ⟨hm, hi⟩ := first_parts hmajor (show argument < 32 by omega)
  simp only [readHead, hm, hi, if_pos hshort]

/-- A head whose argument stands in the octets after the first. -/
theorem readHead_wide {major info width argument : Nat} (hmajor : major < 8)
    (hwidth : info = 24 ∧ width = 1 ∨ info = 25 ∧ width = 2 ∨ info = 26 ∧ width = 4 ∨
      info = 27 ∧ width = 8)
    (hfits : argument < 256 ^ width) (rest : Bytes) :
    readHead (UInt8.ofNat (32 * major + info) :: (Bytes.bigEndian width argument ++ rest)) =
      some (⟨major, info, some argument⟩, rest) := by
  obtain ⟨hm, hi⟩ := first_parts hmajor (show info < 32 by omega)
  have htake := take_append (Bytes.bigEndian width argument) rest
  have hvalue := Bytes.toNat_bigEndian hfits
  rw [Bytes.length_bigEndian] at htake
  rcases hwidth with ⟨rfl, rfl⟩ | ⟨rfl, rfl⟩ | ⟨rfl, rfl⟩ | ⟨rfl, rfl⟩ <;>
  · simp only [readHead, hm, hi, htake]
    simp [hvalue]

theorem length_head_le (major argument : Nat) : (head major argument).length ≤ 9 := by
  unfold head
  extract_lets first
  split
  · simp
  · split_ifs <;> simp [Bytes.length_bigEndian]

/-- A head is read, whatever follows. The low bits of its first octet depend on its width. -/
theorem readHead_head (major : Nat) {argument : Nat} (hmajor : major < 8)
    (hargument : argument < UInt64.size) (rest : Bytes) :
    ∃ info, readHead (head major argument ++ rest) = some (⟨major, info, some argument⟩, rest) := by
  unfold head
  extract_lets first
  split
  next h => exact ⟨argument, readHead_short hmajor h rest⟩
  next =>
    split
    next h => exact ⟨24, readHead_wide hmajor (by simp) h rest⟩
    next =>
      split
      next h => exact ⟨25, readHead_wide hmajor (by simp) h rest⟩
      next =>
        split
        next h => exact ⟨26, readHead_wide hmajor (by simp) h rest⟩
        next => exact ⟨27, readHead_wide hmajor (by simp) hargument rest⟩

/-! ## Lengths -/

theorem head_ne_nil (major argument : Nat) : head major argument ≠ [] := by
  unfold head
  extract_lets first
  split
  · simp
  · split
    · simp
    · split
      · simp
      · split <;> simp

theorem writeFloat_ne_nil (x : Binary64) : writeFloat x ≠ [] := by
  unfold writeFloat
  split <;> simp

theorem write_ne_nil (v : Cbor) : write v ≠ [] := by
  cases v with
  | bool b => cases b <;> simp [write]
  | null => simp [write]
  | float x => simp [write, writeFloat_ne_nil]
  | _ => simp [write, head_ne_nil]

/-- Every item has an octet. -/
theorem length_le_writeItems (items : List Cbor) : items.length ≤ (writeItems items).length := by
  induction items with
  | nil => simp
  | cons v rest ih =>
    have hpos := List.length_pos_iff.2 (write_ne_nil v)
    simp only [writeItems, List.length_append, List.length_cons]
    omega

theorem length_le_writeEntries (entries : List (Cbor × Cbor)) :
    entries.length ≤ (writeEntries entries).length := by
  induction entries with
  | nil => simp
  | cons e rest ih =>
    have hpos := List.length_pos_iff.2 (write_ne_nil e.1)
    simp only [writeEntries, List.length_append, List.length_cons]
    omega

theorem length_writeEntries_le {entries : List (Cbor × Cbor)} {bound : Nat}
    (h : ∀ e ∈ entries, (write e.1).length + (write e.2).length ≤ bound) :
    (writeEntries entries).length ≤ entries.length * bound := by
  induction entries with
  | nil => simp [writeEntries]
  | cons e rest ih =>
    have hfirst := h e (by simp)
    have hrest := ih fun d hd => h d (List.mem_cons_of_mem _ hd)
    simp only [writeEntries, List.length_append, List.length_cons, Nat.succ_mul]
    omega

/-! ## Items -/

/-- The major type of the head of an item. -/
def major : Cbor → Nat
  | .uint _ => 0
  | .nint _ => 1
  | .bytes _ => 2
  | .text _ => 3
  | .array _ => 4
  | .map _ => 5
  | .tag _ _ => 6
  | _ => 7

/-- The octets of a readable item begin with a head of its major type; that of a byte string tells
its length. -/
theorem readHead_write {d : Nat} {v : Cbor} (h : Readable d v)
    (hsize : (write v).length < UInt64.size) (rest : Bytes) :
    ∃ info argument others, readHead (write v ++ rest) =
        some (⟨v.major, info, some argument⟩, others) ∧
      ∀ bs, v = .bytes bs → argument = bs.length := by
  cases h with
  | uint n =>
    obtain ⟨info, hread⟩ := readHead_head 0 (by decide) n.toNat_lt rest
    exact ⟨info, _, _, hread, by simp⟩
  | nint n =>
    obtain ⟨info, hread⟩ := readHead_head 1 (by decide) n.toNat_lt rest
    exact ⟨info, _, _, hread, by simp⟩
  | bytes bs =>
    simp only [write, List.length_append] at hsize
    obtain ⟨info, hread⟩ := readHead_head 2 (by decide)
      (show bs.length < UInt64.size by omega) (bs ++ rest)
    exact ⟨info, _, _, by simpa [write, major] using hread, by simp⟩
  | text s =>
    simp only [write, List.length_append] at hsize
    obtain ⟨info, hread⟩ := readHead_head 3 (by decide)
      (show (Bytes.ofString s).length < UInt64.size by omega) (Bytes.ofString s ++ rest)
    exact ⟨info, _, _, by simpa [write, major] using hread, by simp⟩
  | bool b => cases b <;> exact ⟨_, _, _, rfl, by simp⟩
  | null => exact ⟨_, _, _, rfl, by simp⟩
  | @tag _ number content _ _ =>
    obtain ⟨info, hread⟩ := readHead_head 6 (by decide) number.toNat_lt
      (write content ++ rest)
    exact ⟨info, _, _, by simpa [write, major] using hread, by simp⟩
  | @array _ items _ =>
    have hitems := length_le_writeItems items
    simp only [write, List.length_append] at hsize
    obtain ⟨info, hread⟩ := readHead_head 4 (by decide)
      (show items.length < UInt64.size by omega) (writeItems items ++ rest)
    exact ⟨info, _, _, by simpa [write, major] using hread, by simp⟩
  | @map _ entries _ _ =>
    have hentries := length_le_writeEntries entries
    simp only [write, List.length_append] at hsize
    obtain ⟨info, hread⟩ := readHead_head 5 (by decide)
      (show entries.length < UInt64.size by omega) (writeEntries entries ++ rest)
    exact ⟨info, _, _, by simpa [write, major] using hread, by simp⟩

/-- In a short byte string under the tag of a big number the reader finds the number. -/
theorem bigNumber?_write_bytes {number : UInt64} (hnumber : number = 2 ∨ number = 3) {bs : Bytes}
    (hlength : bs.length ≤ 16) (rest : Bytes) :
    bigNumber? number.toNat (write (.bytes bs) ++ rest) =
      some ((bigNumber (number = 3) bs).map fun v => (v, rest)) := by
  have htag : number.toNat = 2 ∨ number.toNat = 3 := by
    rcases hnumber with rfl | rfl
    · exact Or.inl rfl
    · exact Or.inr rfl
  have hsign : decide (number.toNat = 3) = decide (number = 3) := by
    rcases hnumber with rfl | rfl <;> rfl
  have hsize : bs.length < UInt64.size := lt_of_le_of_lt hlength (by decide)
  obtain ⟨info, hread⟩ := readHead_head 2 (by decide) hsize (bs ++ rest)
  rw [bigNumber?, if_pos htag, write, List.append_assoc, hread]
  simp only [if_pos hlength, take_append, Option.bind_eq_bind, Option.bind_some, hsign]
  rw [Option.map_eq_bind]
  rfl

/-- What the reader finds under a tag that does not make another item of its content. -/
theorem bigNumber?_write {d : Nat} {number : UInt64} {content : Cbor} (h : Readable d content)
    (hshort : ¬ IsShortNumber number content) (hsize : (write content).length < UInt64.size)
    (rest : Bytes) :
    bigNumber? number.toNat (write content ++ rest) = none ∨
      bigNumber? number.toNat (write content ++ rest) =
        some (some (.tag number content, rest)) := by
  by_cases hnumber : number = 2 ∨ number = 3
  · by_cases hbytes : ∃ bs, content = .bytes bs ∧ bs.length ≤ 16
    · obtain ⟨bs, rfl, hlength⟩ := hbytes
      have hsame : bigNumber (number = 3) bs = some (.tag number (.bytes bs)) :=
        of_not_not fun hother => hshort ⟨hnumber, bs, rfl, hlength, hother⟩
      exact Or.inr (by rw [bigNumber?_write_bytes hnumber hlength, hsame]; rfl)
    · -- The head of the content tells a byte string and its length.
      obtain ⟨info, argument, others, hread, hlength⟩ := readHead_write h hsize rest
      refine Or.inl ?_
      rw [bigNumber?, hread]
      cases content with
      | bytes bs =>
        have hlong : ¬ bs.length ≤ 16 := fun hle => hbytes ⟨bs, rfl, hle⟩
        simp [major, hlength bs rfl, hlong]
      | _ => simp [major]
  · have htag : ¬ (number.toNat = 2 ∨ number.toNat = 3) := fun htag =>
      hnumber (htag.imp UInt64.toNat_inj.1 UInt64.toNat_inj.1)
    exact Or.inl (by rw [bigNumber?, if_neg htag])

/-! ## Reading what has been written -/

theorem readItem_eq (d : Nat) : ∃ nested, readItem d = readWith nested := by
  cases d with
  | zero => exact ⟨none, rfl⟩
  | succ d => exact ⟨some (readItem d), rfl⟩

theorem stringSegments_append (major : Nat) (bs rest : Bytes) :
    stringSegments major (some bs.length) (bs ++ rest) = some ([bs], rest) := by
  simp [stringSegments, take_append]

/-- As many items as were written. -/
theorem exactly_writeItems {read : Bytes → Option (Cbor × Bytes)} {items : List Cbor}
    (h : ∀ v ∈ items, ∀ rest, read (write v ++ rest) = some (v, rest)) (rest : Bytes) :
    exactly read items.length (writeItems items ++ rest) = some (items, rest) := by
  induction items with
  | nil => rfl
  | cons v others ih =>
    have hfirst := h v (by simp) (writeItems others ++ rest)
    have hothers := ih fun w hw => h w (by simp [hw])
    simp [writeItems, exactly, hfirst, hothers]

/-- As many pairs as were written. -/
theorem exactly_writeEntries {read : Bytes → Option (Cbor × Bytes)} {entries : List (Cbor × Cbor)}
    (hkey : ∀ e ∈ entries, ∀ rest, read (write e.1 ++ rest) = some (e.1, rest))
    (hvalue : ∀ e ∈ entries, ∀ rest, read (write e.2 ++ rest) = some (e.2, rest)) (rest : Bytes) :
    exactly (pair read) entries.length (writeEntries entries ++ rest) = some (entries, rest) := by
  induction entries with
  | nil => rfl
  | cons e others ih =>
    have hk := hkey e (by simp) (write e.2 ++ (writeEntries others ++ rest))
    have hv := hvalue e (by simp) (writeEntries others ++ rest)
    have hothers := ih (fun w hw => hkey w (by simp [hw])) fun w hw => hvalue w (by simp [hw])
    simp [writeEntries, exactly, pair, hk, hv, hothers]

theorem length_write_le_writeItems {v : Cbor} {items : List Cbor} (h : v ∈ items) :
    (write v).length ≤ (writeItems items).length := by
  induction items with
  | nil => simp at h
  | cons w rest ih =>
    simp only [writeItems, List.length_append]
    rcases List.mem_cons.1 h with rfl | h
    · omega
    · have := ih h
      omega

theorem length_write_le_writeEntries {e : Cbor × Cbor} {entries : List (Cbor × Cbor)}
    (h : e ∈ entries) :
    (write e.1).length ≤ (writeEntries entries).length ∧
      (write e.2).length ≤ (writeEntries entries).length := by
  induction entries with
  | nil => simp at h
  | cons x rest ih =>
    simp only [writeEntries, List.length_append]
    rcases List.mem_cons.1 h with rfl | h
    · omega
    · have := ih h
      omega

/-- A readable item is read from the front of its octets, whatever follows. -/
theorem readItem_write {d : Nat} {v : Cbor} (h : Readable d v)
    (hsize : (write v).length < UInt64.size) (rest : Bytes) :
    readItem d (write v ++ rest) = some (v, rest) := by
  -- An element is followed by those after it, so what follows has to be arbitrary.
  induction h generalizing rest with
  | @uint d n =>
    obtain ⟨nested, hd⟩ := readItem_eq d
    obtain ⟨info, hread⟩ := readHead_head 0 (by decide) n.toNat_lt rest
    simp [hd, readWith, write, hread]
  | @nint d n =>
    obtain ⟨nested, hd⟩ := readItem_eq d
    obtain ⟨info, hread⟩ := readHead_head 1 (by decide) n.toNat_lt rest
    simp [hd, readWith, write, hread]
  | @bytes d bs =>
    obtain ⟨nested, hd⟩ := readItem_eq d
    simp only [write, List.length_append] at hsize
    obtain ⟨info, hread⟩ := readHead_head 2 (by decide)
      (show bs.length < UInt64.size by omega) (bs ++ rest)
    simp [hd, readWith, write, hread, stringSegments_append]
  | @text d s =>
    obtain ⟨nested, hd⟩ := readItem_eq d
    simp only [write, List.length_append] at hsize
    obtain ⟨info, hread⟩ := readHead_head 3 (by decide)
      (show (Bytes.ofString s).length < UInt64.size by omega) (Bytes.ofString s ++ rest)
    simp [hd, readWith, write, hread, stringSegments_append, textOfSegments]
  | @bool d b =>
    obtain ⟨nested, hd⟩ := readItem_eq d
    rw [hd]
    cases b <;> rfl
  | @null d =>
    obtain ⟨nested, hd⟩ := readItem_eq d
    rw [hd]
    rfl
  | @tag d number content hshort hcontent ih =>
    simp only [write, List.length_append] at hsize
    obtain ⟨info, hread⟩ := readHead_head 6 (by decide) number.toNat_lt
      (write content ++ rest)
    have hinner := ih (by omega) rest
    rcases bigNumber?_write hcontent hshort (by omega) rest with hbig | hbig
    · simp [readItem, readWith, write, hread, hbig, hinner]
    · simp [readItem, readWith, write, hread, hbig]
  | @array d items hitems ih =>
    have hcount := length_le_writeItems items
    simp only [write, List.length_append] at hsize
    obtain ⟨info, hread⟩ := readHead_head 4 (by decide)
      (show items.length < UInt64.size by omega) (writeItems items ++ rest)
    have hinner : ∀ v ∈ items, ∀ rest, readItem d (write v ++ rest) = some (v, rest) := by
      intro v hv
      have := length_write_le_writeItems hv
      exact ih v hv (by omega)
    simp [readItem, readWith, write, hread, repeated, exactly_writeItems hinner]
  | @map d entries hkeys hvalues ihk ihv =>
    have hcount := length_le_writeEntries entries
    simp only [write, List.length_append] at hsize
    obtain ⟨info, hread⟩ := readHead_head 5 (by decide)
      (show entries.length < UInt64.size by omega) (writeEntries entries ++ rest)
    have hkey : ∀ e ∈ entries, ∀ rest, readItem d (write e.1 ++ rest) = some (e.1, rest) := by
      intro e he
      have := length_write_le_writeEntries he
      exact ihk e he (by omega)
    have hvalue : ∀ e ∈ entries, ∀ rest, readItem d (write e.2 ++ rest) = some (e.2, rest) := by
      intro e he
      have := length_write_le_writeEntries he
      exact ihv e he (by omega)
    simp [readItem, readWith, write, hread, repeated, exactly_writeEntries hkey hvalue]

/-- The octets of a readable item are the item. -/
theorem parse_write {v : Cbor} (h : Readable maxDepth v)
    (hsize : (write v).length < UInt64.size) : parse (write v) = .ok v := by
  have hread := readItem_write h hsize []
  rw [List.append_nil] at hread
  have hnonempty : (write v).isEmpty = false := by simpa using write_ne_nil v
  simp [parse, hnonempty, read, hread]

/-- A short byte string under the tag of a big number is read as the number. -/
theorem parse_write_shortNumber {number : UInt64} (hnumber : number = 2 ∨ number = 3) {bs : Bytes}
    (hlength : bs.length ≤ 16) :
    parse (write (.tag number (.bytes bs))) =
      match bigNumber (number = 3) bs with
      | some v => .ok v
      | none => .error (.malformed .binary) := by
  have hread : ∀ d, readItem (d + 1) (write (.tag number (.bytes bs))) =
      (bigNumber (number = 3) bs).map fun v => (v, []) := by
    intro d
    obtain ⟨info, hhead⟩ := readHead_head 6 (by decide) number.toNat_lt (write (.bytes bs))
    have hbig := bigNumber?_write_bytes hnumber hlength []
    rw [List.append_nil] at hbig
    rw [readItem, readWith, write, hhead]
    simp [hbig]
  have hnonempty : (write (.tag number (.bytes bs))).isEmpty = false := by
    simpa using write_ne_nil _
  have hitem : read (write (.tag number (.bytes bs))) = _ := hread _
  simp only [parse, hnonempty, hitem]
  cases bigNumber (number = 3) bs <;> rfl

/-- Under a tag, the octets of a byte string are another item exactly if it is a short number. -/
theorem parse_write_tag_iff {number : UInt64} {bs : Bytes}
    (hsize : (write (.tag number (.bytes bs))).length < UInt64.size) :
    parse (write (.tag number (.bytes bs))) = .ok (.tag number (.bytes bs)) ↔
      ¬ IsShortNumber number (.bytes bs) := by
  constructor
  · rintro hparse ⟨hnumber, _, hbytes, hlength, hother⟩
    obtain rfl := Cbor.bytes.inj hbytes
    rw [parse_write_shortNumber hnumber hlength] at hparse
    split at hparse
    next v hvalue => exact hother (by rw [hvalue, Except.ok.inj hparse])
    next => cases hparse
  · intro hshort
    exact parse_write (.tag hshort (.bytes bs)) hsize

end Rim.Cbor
