import Mathlib.Data.List.Induction
import Rim.Proofs.Oid
import Rim.Proofs.Outcome

/-!
# The grammar of object identifiers

What the two conversions accept, said without them.

* `Oid.Spells`, `Oid.Plain`: the arcs that a dotted text spells, and the texts without signs or
  leading zeros.
* `Oid.SubIdentifier`, `Oid.Content`: the octets of one number, and those of several.
* `Oid.toBer_eq_ok_iff`, `Oid.ofBer_eq_ok_iff`: texts that spell well-formed arcs have the content
  octets of these arcs, and content octets of well-formed arcs have their plain text.
-/

namespace Rim.Oid

/-! ## Dotted text -/

/-- A piece of a dotted text spells a number: digits, which a plus sign may precede. -/
def Numeral (piece : List Char) (n : Nat) : Prop :=
  ∃ digits, (piece = digits ∨ piece = '+' :: digits) ∧ digits ≠ [] ∧
    (∀ c ∈ digits, c.isDigit = true) ∧ Nat.ofDigitChars 10 digits 0 = n

/-- The arcs that a dotted text spells. -/
def Spells (text : String) (arcs : List Nat) : Prop :=
  List.Forall₂ Numeral (Text.split '.' text.toList) arcs

/-- A text without signs, in which nothing but a zero begins with one. -/
def Plain (text : String) : Prop :=
  ∀ piece ∈ Text.split '.' text.toList,
    (∀ c ∈ piece, c.isDigit = true) ∧ ∀ rest, piece = '0' :: rest → rest = []

/-- The digits of a numeral are what stands behind its sign. -/
theorem readArc_of_digits {piece digits : List Char}
    (h : (piece = digits ∧ ∀ rest, digits ≠ '+' :: rest) ∨ piece = '+' :: digits) :
    readArc piece = match Text.readNat? digits with
      | some n => if n < limit then .ok n else .error (.badArc (String.ofList piece))
      | none => .error (.badArc (String.ofList piece)) := by
  unfold readArc
  rcases h with ⟨rfl, hsign⟩ | rfl
  · split
    next rest => exact absurd rfl (hsign rest)
    next => rfl
  · rfl

theorem readArc_eq_ok_iff {piece : List Char} {n : Nat} :
    readArc piece = .ok n ↔ Numeral piece n ∧ n < limit := by
  constructor
  · intro h
    obtain ⟨digits, hpiece⟩ : ∃ digits,
        (piece = digits ∧ ∀ rest, digits ≠ '+' :: rest) ∨ piece = '+' :: digits := by
      by_cases hsign : ∃ rest, piece = '+' :: rest
      · obtain ⟨rest, rfl⟩ := hsign
        exact ⟨rest, .inr rfl⟩
      · exact ⟨piece, .inl ⟨rfl, fun rest hrest => hsign ⟨rest, hrest⟩⟩⟩
    rw [readArc_of_digits hpiece] at h
    cases hread : Text.readNat? digits with
    | none => simp [hread] at h
    | some m =>
      by_cases hlt : m < limit
      · obtain rfl : m = n := by simpa [hread, hlt] using h
        obtain ⟨hne, hdigits, hvalue⟩ := Text.readNat?_eq_some_iff.1 hread
        exact ⟨⟨digits, hpiece.imp And.left id, hne, hdigits, hvalue⟩, hlt⟩
      · simp [hread, hlt] at h
  · rintro ⟨⟨digits, hpiece, hne, hdigits, hvalue⟩, hlt⟩
    have hsign : ∀ rest, digits ≠ '+' :: rest := by
      rintro rest rfl
      exact absurd (hdigits '+' (by simp)) (by decide)
    rw [readArc_of_digits (hpiece.imp (fun h => ⟨h, hsign⟩) id),
      Text.readNat?_eq_some_iff.2 ⟨hne, hdigits, hvalue⟩]
    exact if_pos hlt

/-- The pieces of a text are read exactly if they spell numbers of 64 bits. -/
theorem mapM_readArc_eq_ok_iff {text : String} {ns : List Nat} :
    (Text.split '.' text.toList).mapM readArc = .ok ns ↔
      Spells text ns ∧ ∀ n ∈ ns, n < limit := by
  rw [Except.mapM_eq_ok_iff]
  constructor
  · intro h
    exact ⟨h.imp fun _ _ hpiece => (readArc_eq_ok_iff.1 hpiece).1,
      forall_mem_right_of_forall₂ (h.imp fun _ _ hpiece => (readArc_eq_ok_iff.1 hpiece).2)⟩
  · rintro ⟨hspells, hlt⟩
    unfold Spells at hspells
    generalize Text.split '.' text.toList = pieces at hspells
    induction hspells with
    | nil => exact .nil
    | cons hpiece _ ih =>
      obtain ⟨hn, hothers⟩ := List.forall_mem_cons.1 hlt
      exact .cons (readArc_eq_ok_iff.2 ⟨hpiece, hn⟩) (ih hothers)

theorem Numeral.unique {piece : List Char} {n m : Nat} (h : Numeral piece n)
    (h' : Numeral piece m) : n = m := by
  obtain ⟨digits, hpiece, -, hdigits, rfl⟩ := h
  obtain ⟨others, hother, -, hothers, rfl⟩ := h'
  have hsign : ¬ ('+').isDigit = true := by decide
  rcases hpiece with rfl | rfl <;> rcases hother with hother | hother
  · rw [hother]
  · exact absurd (hdigits '+' (by simp [hother])) hsign
  · exact absurd (hothers '+' (by simp [← hother])) hsign
  · rw [(List.cons.inj hother).2]

/-- A text spells one list of arcs at most. -/
theorem Spells.unique {text : String} {ns ms : List Nat} (h : Spells text ns)
    (h' : Spells text ms) : ns = ms := by
  have hunique : Relator.RightUnique Numeral := fun _ _ _ => Numeral.unique
  exact List.right_unique_forall₂' hunique h h'

/-- The text of arcs spells them. -/
theorem spells_dotted {ns : List Nat} (h : ns ≠ []) : Spells (dotted ns) ns := by
  unfold Spells
  rw [split_dotted h, List.forall₂_map_left_iff]
  refine List.forall₂_same.2 fun n _ => ⟨Nat.toDigits 10 n, .inl rfl, Nat.toDigits_ne_nil,
    fun c hc => Text.isDigit_of_mem_toDigits hc, Nat.ofDigitChars_ten_toDigits⟩

/-- The text of arcs is plain. -/
theorem plain_dotted {ns : List Nat} (h : ns ≠ []) : Plain (dotted ns) := by
  intro piece hp
  rw [split_dotted h] at hp
  obtain ⟨n, -, rfl⟩ := List.mem_map.1 hp
  refine ⟨fun c hc => Text.isDigit_of_mem_toDigits hc, fun rest hrest => ?_⟩
  by_cases hzero : n = 0
  · subst hzero
    exact (List.cons.inj hrest).2.symm
  · exact absurd hrest (Text.head_toDigits_ne_zero hzero rest)

/-! ## Octets -/

/-- The number that groups of seven bits spell, the most significant one first. -/
def value (bs : Bytes) : Nat := bs.foldl (fun n b => 128 * n + b.toNat % 128) 0

/-- The octets of one number. -/
structure SubIdentifier (bs : Bytes) : Prop where
  /-- It ends with its only octet without a continuation bit. -/
  terminated : ∃ front last, bs = front ++ [last] ∧ (∀ b ∈ front, 128 ≤ b.toNat) ∧
    last.toNat < 128
  /-- It does not begin with a group of zeros. -/
  minimal : bs.head? ≠ some 0x80
  fits : value bs < limit

/-- The content octets of one number or more. -/
def Content (ber : Bytes) (ns : List Nat) : Prop :=
  ∃ parts : List Bytes, parts ≠ [] ∧ ber = parts.flatten ∧ (∀ p ∈ parts, SubIdentifier p) ∧
    parts.map value = ns

theorem value_concat (front : Bytes) (last : UInt8) :
    value (front ++ [last]) = 128 * value front + last.toNat % 128 := by
  simp [value]

/-- Octets that all go on, and do not begin with zeros, are the high groups of their number. -/
theorem highGroups_value {front : Bytes} (hfront : ∀ b ∈ front, 128 ≤ b.toNat)
    (hhead : front.head? ≠ some 0x80) (tail : Bytes) :
    highGroups (value front) tail = front ++ tail ∧ (value front = 0 → front = []) := by
  induction front using List.reverseRecOn generalizing tail with
  | nil => simp [value]
  | append_singleton others b ih =>
    have hb : 128 ≤ b.toNat := hfront b (by simp)
    have hb' := b.toNat_lt
    have hothers : others.head? ≠ some 0x80 := by
      intro hbad
      exact hhead (by simp [hbad])
    have hih := ih (fun c hc => hfront c (by simp [hc])) hothers
    rw [value_concat]
    -- Without anything in front, the octet is not that of seven zeros.
    have hne : 128 * value others + b.toNat % 128 ≠ 0 := by
      intro hzero
      obtain rfl : others = [] := (hih []).2 (by omega)
      have hoctet : b = 0x80 := by
        apply UInt8.toNat_inj.1
        show b.toNat = 128
        omega
      exact hhead (by simp [hoctet])
    have hdiv : (128 * value others + b.toNat % 128) / 128 = value others := by omega
    have hmod : (128 * value others + b.toNat % 128) % 128 + 128 = b.toNat := by omega
    constructor
    · rw [highGroups_pos hne, hdiv, hmod, UInt8.ofNat_toNat, (hih _).1, List.append_assoc]
      rfl
    · exact fun hzero => absurd hzero hne

/-- The high groups of a number all go on, do not begin with zeros, and spell it. -/
theorem exists_highGroups (n : Nat) :
    ∃ front : Bytes, (∀ tail, highGroups n tail = front ++ tail) ∧
      (∀ b ∈ front, 128 ≤ b.toNat) ∧ front.head? ≠ some 0x80 ∧ value front = n := by
  induction n using Nat.strongRecOn with
  | ind n ih =>
    by_cases h : n = 0
    · exact ⟨[], by simp [h], by simp, by simp, h.symm⟩
    · obtain ⟨front, happend, hfront, hhead, hvalue⟩ := ih (n / 128) (by omega)
      refine ⟨front ++ [UInt8.ofNat (n % 128 + 128)], ?_, ?_, ?_, ?_⟩
      · intro tail
        rw [highGroups_pos h, happend, List.append_assoc]
        rfl
      · intro b hb
        rcases List.mem_append.1 hb with hb | hb
        · exact hfront b hb
        · obtain rfl := List.mem_singleton.1 hb
          rw [toNat_high]
          omega
      · cases front with
        | cons b others => simpa using hhead
        | nil =>
          intro hbad
          have hoctet := congrArg UInt8.toNat (Option.some.inj hbad)
          rw [toNat_high] at hoctet
          have hzero : (0x80 : UInt8).toNat = 128 := rfl
          have hdiv : 0 = n / 128 := hvalue
          omega
      · rw [value_concat, hvalue, toNat_high]
        omega

/-- The octets of a number are a sub-identifier with that value. -/
theorem subIdentifier_groups {n : Nat} (h : n < limit) :
    SubIdentifier (groups n) ∧ value (groups n) = n := by
  obtain ⟨front, happend, hfront, hhead, hvalue⟩ := exists_highGroups (n / 128)
  have hgroups : groups n = front ++ [UInt8.ofNat (n % 128)] := happend _
  have hsum : value (groups n) = n := by
    rw [hgroups, value_concat, hvalue, toNat_low]
    omega
  refine ⟨⟨⟨front, _, hgroups, hfront, ?_⟩, ?_, ?_⟩, hsum⟩
  · rw [toNat_low]
    omega
  · rw [hgroups]
    cases front with
    | cons b others => simpa using hhead
    | nil =>
      intro hbad
      have hoctet := congrArg UInt8.toNat (Option.some.inj hbad)
      rw [toNat_low] at hoctet
      have hzero : (0x80 : UInt8).toNat = 128 := rfl
      omega
  · rw [hsum]
    exact h

/-- A sub-identifier is what its number is written as. -/
theorem groups_value {bs : Bytes} (h : SubIdentifier bs) : groups (value bs) = bs := by
  obtain ⟨front, last, rfl, hfront, hlast⟩ := h.terminated
  have hhead : front.head? ≠ some 0x80 := by
    intro hbad
    exact h.minimal (by simp [hbad])
  have hdiv : (128 * value front + last.toNat % 128) / 128 = value front := by omega
  have hmod : (128 * value front + last.toNat % 128) % 128 = last.toNat := by omega
  rw [value_concat, groups, hdiv, hmod, UInt8.ofNat_toNat, (highGroups_value hfront hhead _).1]

theorem content_iff {ber : Bytes} {ns : List Nat} :
    Content ber ns ↔ ns ≠ [] ∧ ber = ns.flatMap groups ∧ ∀ n ∈ ns, n < limit := by
  constructor
  · rintro ⟨parts, hne, rfl, hparts, rfl⟩
    refine ⟨by simpa using hne, ?_, ?_⟩
    · have hsame : parts.flatMap (groups ∘ value) = parts.flatMap id :=
        List.flatMap_congr fun p hp => groups_value (hparts p hp)
      rw [List.flatMap_map, ← List.flatMap_id']
      exact hsame.symm
    · intro n hn
      obtain ⟨p, hp, rfl⟩ := List.mem_map.1 hn
      exact (hparts p hp).fits
  · rintro ⟨hne, rfl, hlt⟩
    refine ⟨ns.map groups, by simpa using hne, List.flatMap_def, ?_, ?_⟩
    · intro p hp
      obtain ⟨n, hn, rfl⟩ := List.mem_map.1 hp
      exact (subIdentifier_groups (hlt n hn)).1
    · rw [List.map_map]
      calc ns.map (value ∘ groups) = ns.map id :=
            List.map_congr_left fun n hn => (subIdentifier_groups (hlt n hn)).2
        _ = ns := List.map_id ns

/-- Octets are the content of one list of numbers at most. -/
theorem Content.unique {ber : Bytes} {ns ms : List Nat} (h : Content ber ns)
    (h' : Content ber ms) : ns = ms := by
  obtain ⟨-, hber, hlt⟩ := content_iff.1 h
  obtain ⟨-, hsame, hlt'⟩ := content_iff.1 h'
  have hns := readGroups_flatMap_groups hlt
  have hms := readGroups_flatMap_groups hlt'
  rw [← hber, hsame, hms] at hns
  exact (Except.ok.inj hns).symm

/-! ## The two conversions -/

/-- The content octets of well-formed arcs. -/
theorem content_arcs {root second : Nat} {rest : List Nat} {ber : Bytes}
    (h : WellFormed root second rest) :
    Content ber ((40 * root + second) :: rest) ↔
      ber = ((40 * root + second) :: rest).flatMap groups := by
  rw [content_iff]
  constructor
  · exact fun hcontent => hcontent.2.1
  · intro hber
    refine ⟨by simp, hber, ?_⟩
    intro n hn
    rcases List.mem_cons.1 hn with rfl | hn
    · exact h.shared_lt
    · exact h.rest_lt n hn

/-- The arcs of a text are those that it spells, if they are well formed. -/
theorem arcs_eq_ok_iff {text : String} {root second : Nat} {rest : List Nat} :
    arcs text = .ok (root, second, rest) ↔
      Spells text (root :: second :: rest) ∧ WellFormed root second rest := by
  constructor
  · intro h
    obtain ⟨hpieces, hwf⟩ := arcs_cases h
    exact ⟨(mapM_readArc_eq_ok_iff.1 hpieces).1, hwf⟩
  · rintro ⟨hspells, hwf⟩
    have hroot := hwf.root_le
    have hsecond := hwf.second_lt
    have hshared := hwf.shared_lt
    rw [arcs_of_pieces (mapM_readArc_eq_ok_iff.2 ⟨hspells, hwf.arcs_lt⟩), if_neg (by omega),
      if_neg (by omega)]

/-- The octets of a text are those of the arcs it spells. -/
theorem toBer_eq_ok_iff {text : String} {ber : Bytes} :
    toBer text = .ok ber ↔
      ∃ root second rest, WellFormed root second rest ∧ Spells text (root :: second :: rest) ∧
        Content ber ((40 * root + second) :: rest) := by
  constructor
  · intro h
    obtain ⟨root, second, rest, harcs, hber⟩ := arcs_of_toBer h
    obtain ⟨hspells, hwf⟩ := arcs_eq_ok_iff.1 harcs
    exact ⟨root, second, rest, hwf, hspells, (content_arcs hwf).2 hber⟩
  · rintro ⟨root, second, rest, hwf, hspells, hcontent⟩
    rw [(content_arcs hwf).1 hcontent]
    exact toBer_of_arcs (arcs_eq_ok_iff.2 ⟨hspells, hwf⟩)

/-- The text of octets is that of the arcs they are the content of. -/
theorem ofBer_eq_ok_iff {ber : Bytes} {text : String} :
    ofBer ber = .ok text ↔
      ∃ root second rest, WellFormed root second rest ∧ text = dotted (root :: second :: rest) ∧
        Content ber ((40 * root + second) :: rest) := by
  constructor
  · intro h
    obtain ⟨root, second, rest, hwf, htext, hber⟩ := arcs_of_ofBer h
    exact ⟨root, second, rest, hwf, htext, (content_arcs hwf).2 hber⟩
  · rintro ⟨root, second, rest, hwf, rfl, hcontent⟩
    rw [(content_arcs hwf).1 hcontent]
    exact ofBer_flatMap_groups hwf

/-- The content of any numbers is read: the first of them as a root and a second arc. -/
theorem ofBer_of_content {ber : Bytes} {first : Nat} {rest : List Nat}
    (h : Content ber (first :: rest)) :
    ofBer ber = .ok (dotted ((splitRoot first).1 :: (splitRoot first).2 :: rest)) := by
  refine ofBer_eq_ok_iff.2 ⟨_, _, _, wellFormed_splitRoot (content_iff.1 h).2.2, rfl, ?_⟩
  rw [shared_splitRoot]
  exact h

/-- Texts have the octets of one another exactly if they spell the same arcs. -/
theorem toBer_eq_iff_spells {text : String} {ber : Bytes} (h : toBer text = .ok ber)
    (other : String) :
    toBer other = .ok ber ↔ ∃ ns, Spells text ns ∧ Spells other ns := by
  obtain ⟨root, second, rest, hwf, hspells, hcontent⟩ := toBer_eq_ok_iff.1 h
  constructor
  · intro hother
    obtain ⟨root', second', rest', hwf', hspells', hcontent'⟩ := toBer_eq_ok_iff.1 hother
    obtain ⟨hshared, hrest⟩ := List.cons.inj (hcontent.unique hcontent')
    -- The shared number splits in one way only.
    have hsplit : (root, second) = (root', second') := by
      rw [← splitRoot_shared hwf.root_le hwf.second_lt, hshared,
        splitRoot_shared hwf'.root_le hwf'.second_lt]
    cases hsplit
    cases hrest
    exact ⟨_, hspells, hspells'⟩
  · rintro ⟨ns, htext, hother⟩
    rw [htext.unique hspells] at hother
    exact toBer_eq_ok_iff.2 ⟨root, second, rest, hwf, hother, hcontent⟩

end Rim.Oid
