import Rim.Oid
import Rim.Proofs.Text.Decimal

/-!
# The two forms of object identifiers

* `Oid.toBer_of_ofBer`: the octets that a dotted text was read from are its octets.
* `Oid.ofBer_of_toBer`: the octets of a dotted text are read as the text of its arcs.
* `Oid.canonical_of_toBer`: a text with octets has a canonical spelling, which has the same ones.

Reading is followed group by group: what has been read of a number are the groups above the next
one, so the number so far determines the octets in front.
-/

namespace Rim.Oid

/-! ## Groups of seven bits -/

theorem limit_eq : limit = 128 * 144115188075855872 := rfl

theorem highGroups_pos {n : Nat} (h : n ≠ 0) (tail : Bytes) :
    highGroups n tail = highGroups (n / 128) (UInt8.ofNat (n % 128 + 128) :: tail) := by
  rw [highGroups, if_neg h]

@[simp] theorem highGroups_zero (tail : Bytes) : highGroups 0 tail = tail := by
  rw [highGroups, if_pos rfl]

theorem highGroups_append (n : Nat) (tail rest : Bytes) :
    highGroups n (tail ++ rest) = highGroups n tail ++ rest := by
  induction n using Nat.strongRecOn generalizing tail with
  | ind n ih =>
    by_cases h : n = 0
    · simp [h]
    · rw [highGroups_pos h, highGroups_pos h, ← ih (n / 128) (by omega), List.cons_append]

theorem toNat_low {n : Nat} : (UInt8.ofNat (n % 128)).toNat = n % 128 := by
  simp only [UInt8.toNat_ofNat', Nat.reducePow]
  omega

theorem toNat_high {n : Nat} : (UInt8.ofNat (n % 128 + 128)).toNat = n % 128 + 128 := by
  simp only [UInt8.toNat_ofNat', Nat.reducePow]
  omega

/-- One more group of a number that goes on. -/
theorem readGroups_high {acc : Nat} {starting : Bool} {b : UInt8} {rest : Bytes}
    (hmin : ¬ (starting = true ∧ b = 0x80)) (hacc : acc * 128 < limit) (hb : 128 ≤ b.toNat) :
    readGroups acc starting (b :: rest) = readGroups (acc * 128 + b.toNat % 128) false rest := by
  rw [readGroups, if_neg hmin, if_neg (by omega)]
  exact if_neg (by omega)

/-- The last group of a number. -/
theorem readGroups_low {acc : Nat} {starting : Bool} {b : UInt8} {rest : Bytes}
    (hacc : acc * 128 < limit) (hb : b.toNat < 128) :
    readGroups acc starting (b :: rest) =
      (readGroups 0 true rest).map ((acc * 128 + b.toNat) :: ·) := by
  have hmin : ¬ (starting = true ∧ b = 0x80) := by
    rintro ⟨-, rfl⟩
    exact absurd hb (by decide)
  rw [readGroups, if_neg hmin, if_neg (by omega)]
  simp only [hb, if_true, Nat.mod_eq_of_lt hb]
  cases readGroups 0 true rest <;> rfl

/-- Reading the upper groups of a number leaves the number itself behind. -/
theorem readGroups_highGroups {n : Nat} (hn : n * 128 < limit) (tail : Bytes) :
    readGroups 0 true (highGroups n tail) = readGroups n (n = 0) tail := by
  -- The reader is still at the start exactly if no group stood in front.
  induction n using Nat.strongRecOn generalizing tail with
  | ind n ih =>
    by_cases h : n = 0
    · simp [h]
    · have hmin : ¬ (decide (n / 128 = 0) = true ∧ UInt8.ofNat (n % 128 + 128) = 0x80) := by
        rintro ⟨hzero, hoctet⟩
        have hpart := congrArg UInt8.toNat hoctet
        rw [toNat_high] at hpart
        have hvalue : (0x80 : UInt8).toNat = 128 := rfl
        have hdiv : n / 128 = 0 := of_decide_eq_true hzero
        omega
      rw [highGroups_pos h, ih (n / 128) (by omega) (by omega),
        readGroups_high hmin (by omega) (by rw [toNat_high]; omega), toNat_high]
      congr 1
      · omega
      · simp [h]

/-- The octets of a number are read as the number. -/
theorem readGroups_groups {n : Nat} (hn : n < limit) (rest : Bytes) :
    readGroups 0 true (groups n ++ rest) = (readGroups 0 true rest).map (n :: ·) := by
  have hlimit := limit_eq
  have hsplit : n / 128 * 128 + n % 128 = n := by omega
  rw [groups, ← highGroups_append, readGroups_highGroups (by omega), List.cons_append,
    readGroups_low (by omega) (by rw [toNat_low]; omega), toNat_low, hsplit]
  rfl

theorem readGroups_flatMap_groups {ns : List Nat} (h : ∀ n ∈ ns, n < limit) :
    readGroups 0 true (ns.flatMap groups) = .ok ns := by
  induction ns with
  | nil => rfl
  | cons n rest ih =>
    rw [List.flatMap_cons, readGroups_groups (h n (by simp)), ih fun m hm => h m (by simp [hm])]
    rfl

/-- What is read of octets that end with a number are numbers with these octets. `acc` has been
read before, so its groups stand in front. -/
theorem highGroups_of_readGroups : ∀ {bs : Bytes} {acc : Nat} {starting : Bool} {ns : List Nat},
    readGroups acc starting bs = .ok ns → (starting = true ↔ acc = 0) →
    (∀ last, bs.getLast? = some last → last.toNat < 128) → (bs = [] → acc = 0) →
    highGroups acc bs = ns.flatMap groups ∧ ∀ n ∈ ns, n < limit
  | [], acc, starting, ns, h, _, _, hempty => by
    obtain rfl : acc = 0 := hempty rfl
    obtain rfl : [] = ns := by simpa [readGroups] using h
    simp
  | b :: rest, acc, starting, ns, h, hstart, hlast, _ => by
    have hlimit := limit_eq
    -- What has been read passed every check on the way.
    have hmin : ¬ (starting = true ∧ b = 0x80) := by
      intro hbad
      simp [readGroups, hbad] at h
    have hacc : acc * 128 < limit := by
      rcases Nat.lt_or_ge (acc * 128) limit with hlt | hbig
      · exact hlt
      · rw [readGroups, if_neg hmin, if_pos hbig] at h
        simp at h
    by_cases hb : b.toNat < 128
    · -- The number ends here, and the rest is read from the start.
      rw [readGroups_low hacc hb] at h
      cases hrest : readGroups 0 true rest with
      | error e => simp [hrest, Except.map] at h
      | ok others =>
        obtain rfl : (acc * 128 + b.toNat) :: others = ns := by simpa [hrest, Except.map] using h
        have hlast' : ∀ last, rest.getLast? = some last → last.toNat < 128 := by
          intro last hl
          exact hlast last (by simp [List.getLast?_cons, hl])
        obtain ⟨hoctets, hothers⟩ := highGroups_of_readGroups hrest (by simp) hlast' (fun _ => rfl)
        have hgroups : groups (acc * 128 + b.toNat) = highGroups acc [b] := by
          have hdiv : (acc * 128 + b.toNat) / 128 = acc := by omega
          have hmod : (acc * 128 + b.toNat) % 128 = b.toNat := by omega
          rw [groups, hdiv, hmod, UInt8.ofNat_toNat]
        rw [highGroups_zero] at hoctets
        refine ⟨?_, ?_⟩
        · rw [List.flatMap_cons, hgroups, ← hoctets, ← highGroups_append]
          rfl
        · intro n hn
          rcases List.mem_cons.1 hn with rfl | hn
          · omega
          · exact hothers n hn
    · -- The number goes on: its group joins those in front.
      rw [readGroups_high hmin hacc (by omega)] at h
      -- Only a leading 0x80 would leave nothing in front, and that is refused at the start.
      have hne : acc * 128 + b.toNat % 128 ≠ 0 := by
        intro hzero
        have hb' := b.toNat_lt
        have hoctet : b = 0x80 := by
          apply UInt8.toNat_inj.1
          show b.toNat = 128
          omega
        exact hmin ⟨hstart.2 (by omega), hoctet⟩
      have hrest : rest ≠ [] := by
        rintro rfl
        have := hlast b rfl
        omega
      have hlast' : ∀ last, rest.getLast? = some last → last.toNat < 128 := by
        intro last hl
        exact hlast last (by simp [List.getLast?_cons, hl])
      obtain ⟨hoctets, hns⟩ := highGroups_of_readGroups h
        ⟨fun hf => absurd hf (by simp), fun hz => absurd hz hne⟩ hlast'
        (fun he => absurd he hrest)
      refine ⟨?_, hns⟩
      have hb' := b.toNat_lt
      have hdiv : (acc * 128 + b.toNat % 128) / 128 = acc := by omega
      have hmod : (acc * 128 + b.toNat % 128) % 128 + 128 = b.toNat := by omega
      rw [highGroups_pos hne, hdiv, hmod, UInt8.ofNat_toNat] at hoctets
      exact hoctets

theorem groups_ne_nil (n : Nat) : groups n ≠ [] := by
  rw [groups, ← List.nil_append [UInt8.ofNat (n % 128)], highGroups_append]
  simp

/-- The octets of numbers end with the last group of one. -/
theorem getLast?_flatMap_groups {ns : List Nat} {last : UInt8}
    (h : (ns.flatMap groups).getLast? = some last) : last.toNat < 128 := by
  induction ns with
  | nil => simp at h
  | cons n rest ih =>
    rw [List.flatMap_cons] at h
    by_cases hrest : rest.flatMap groups = []
    · rw [hrest, List.append_nil, groups, ← List.nil_append [UInt8.ofNat (n % 128)],
        highGroups_append, List.getLast?_concat] at h
      obtain rfl : UInt8.ofNat (n % 128) = last := by simpa using h
      rw [toNat_low]
      omega
    · cases hl : (rest.flatMap groups).getLast? with
      | none => exact absurd (List.getLast?_eq_none_iff.1 hl) hrest
      | some l =>
        rw [List.getLast?_append, hl] at h
        obtain rfl : l = last := by simpa using h
        exact ih hl

/-! ## Arcs -/

/-- A root below 3, with a second arc below 40 under the first two, and numbers of 64 bits. -/
structure WellFormed (root second : Nat) (rest : List Nat) : Prop where
  root_le : root ≤ 2
  second_lt : root < 2 → second < 40
  shared_lt : 40 * root + second < limit
  rest_lt : ∀ n ∈ rest, n < limit

theorem readArc_lt {arc : List Char} {n : Nat} (h : readArc arc = .ok n) : n < limit := by
  unfold readArc at h
  extract_lets digits at h
  cases hread : Text.readNat? digits with
  | none => simp [hread] at h
  | some m =>
    by_cases hlt : m < limit
    · obtain rfl : m = n := by simpa [hread, hlt] using h
      exact hlt
    · simp [hread, hlt] at h

theorem readArc_toDigits {n : Nat} (h : n < limit) : readArc (Nat.toDigits 10 n) = .ok n := by
  have hsign : ∀ rest, Nat.toDigits 10 n ≠ '+' :: rest := by
    intro rest heq
    have hplus : ('+').isDigit = true := Text.isDigit_of_mem_toDigits (n := n) (by simp [heq])
    exact absurd hplus (by decide)
  unfold readArc
  split
  next digits rest heq => exact absurd heq (hsign rest)
  next => simp [Text.readNat?_toDigits, h]

theorem mapM_readArc_lt : ∀ {pieces : List (List Char)} {ns : List Nat},
    pieces.mapM readArc = .ok ns → ∀ n ∈ ns, n < limit
  | [], ns, h => by
    obtain rfl : [] = ns := by simpa [pure, Except.pure] using h
    simp
  | piece :: rest, ns, h => by
    rw [List.mapM_cons] at h
    cases hfirst : readArc piece with
    | error e => simp [hfirst, bind, Except.bind] at h
    | ok m =>
      cases hrest : rest.mapM readArc with
      | error e => simp [hfirst, hrest, bind, Except.bind] at h
      | ok ms =>
        obtain rfl : m :: ms = ns := by
          simpa [hfirst, hrest, bind, Except.bind, pure, Except.pure] using h
        intro n hn
        rcases List.mem_cons.1 hn with rfl | hn
        · exact readArc_lt hfirst
        · exact mapM_readArc_lt hrest n hn

theorem mapM_readArc_toDigits {ns : List Nat} (h : ∀ n ∈ ns, n < limit) :
    (ns.map (Nat.toDigits 10)).mapM readArc = .ok ns := by
  induction ns with
  | nil => rfl
  | cons n rest ih =>
    rw [List.map_cons, List.mapM_cons, readArc_toDigits (h n (by simp)),
      ih fun m hm => h m (by simp [hm])]
    rfl

/-- What becomes of two or more arcs that have been read. -/
theorem arcs_of_pieces {text : String} {root second : Nat} {rest : List Nat}
    (h : (Text.split '.' text.toList).mapM readArc = .ok (root :: second :: rest)) :
    arcs text =
      if 2 < root ∨ (root < 2 ∧ 40 ≤ second) then .error (.invalidRoot text)
      else if limit ≤ 40 * root + second then .error (.rootOverflow text)
      else .ok (root, second, rest) := by
  unfold arcs
  rw [h]
  rfl

/-- Arcs that have been accepted are those that were read, and they are well formed. -/
theorem arcs_cases {text : String} {root second : Nat} {rest : List Nat}
    (h : arcs text = .ok (root, second, rest)) :
    (Text.split '.' text.toList).mapM readArc = .ok (root :: second :: rest) ∧
      WellFormed root second rest := by
  cases hpieces : (Text.split '.' text.toList).mapM readArc with
  | error e => simp [arcs, hpieces, bind, Except.bind] at h
  | ok ns =>
    match ns with
    | [] => simp [arcs, hpieces, bind, Except.bind, throw, throwThe, MonadExceptOf.throw] at h
    | [_] => simp [arcs, hpieces, bind, Except.bind, throw, throwThe, MonadExceptOf.throw] at h
    | r :: s :: others =>
      have hlt := mapM_readArc_lt hpieces
      rw [arcs_of_pieces hpieces] at h
      split at h
      · cases h
      next hroot =>
        split at h
        · cases h
        next hshared =>
          cases h
          exact ⟨rfl, by omega, by omega, by omega, fun n hn => hlt n (by simp [hn])⟩

/-- The dotted text of arcs, as a list of characters. -/
theorem toList_dotted (ns : List Nat) :
    (dotted ns).toList = ['.'].intercalate (ns.map (Nat.toDigits 10)) := by
  have hpoint : ".".toList = ['.'] := by decide
  have hdigits : String.toList ∘ (toString : Nat → String) = Nat.toDigits 10 :=
    funext fun n => Nat.toList_repr
  rw [dotted, String.toList_intercalate, List.map_map, hpoint, hdigits]

/-- The text of arcs has one piece for each. -/
theorem split_dotted {ns : List Nat} (h : ns ≠ []) :
    Text.split '.' (dotted ns).toList = ns.map (Nat.toDigits 10) := by
  have hdigits : ∀ piece ∈ ns.map (Nat.toDigits 10), '.' ∉ piece := by
    intro piece hp hdot
    obtain ⟨n, -, rfl⟩ := List.mem_map.1 hp
    exact absurd (Text.isDigit_of_mem_toDigits hdot) (by decide)
  rw [toList_dotted, Text.split_eq_splitOn, List.splitOn_intercalate _ hdigits (by simpa using h)]

/-- Well-formed arcs are numbers of 64 bits. -/
theorem WellFormed.arcs_lt {root second : Nat} {rest : List Nat}
    (h : WellFormed root second rest) : ∀ n ∈ root :: second :: rest, n < limit := by
  have hshared := h.shared_lt
  have hroot := h.root_le
  intro n hn
  simp only [List.mem_cons] at hn
  rcases hn with rfl | rfl | hn
  · omega
  · omega
  · exact h.rest_lt n hn

/-- Arcs are read off their dotted text. -/
theorem arcs_dotted {root second : Nat} {rest : List Nat} (h : WellFormed root second rest) :
    arcs (dotted (root :: second :: rest)) = .ok (root, second, rest) := by
  have hroot := h.root_le
  have hsecond := h.second_lt
  have hshared := h.shared_lt
  have hread : (Text.split '.' (dotted (root :: second :: rest)).toList).mapM readArc =
      .ok (root :: second :: rest) := by
    rw [split_dotted (by simp), mapM_readArc_toDigits h.arcs_lt]
  rw [arcs_of_pieces hread, if_neg (by omega), if_neg (by omega)]

/-! ## The shared first number -/

theorem splitRoot_shared {root second : Nat} (hroot : root ≤ 2) (hsecond : root < 2 → second < 40) :
    splitRoot (40 * root + second) = (root, second) := by
  unfold splitRoot
  split
  · have : root = 0 := by omega
    subst this
    simp
  · split
    · have : root = 1 := by omega
      subst this
      simp
    · have : root = 2 := by omega
      subst this
      simp

theorem shared_splitRoot (n : Nat) : 40 * (splitRoot n).1 + (splitRoot n).2 = n := by
  unfold splitRoot
  split
  · simp
  · split
    · simp
      omega
    · simp
      omega

theorem splitRoot_le (n : Nat) :
    (splitRoot n).1 ≤ 2 ∧ ((splitRoot n).1 < 2 → (splitRoot n).2 < 40) := by
  unfold splitRoot
  split
  · simp
    omega
  · split
    · simp
      omega
    · simp

/-- The number in front of a list of sub-identifiers is shared by a well-formed root and second
arc. -/
theorem wellFormed_splitRoot {first : Nat} {rest : List Nat}
    (h : ∀ n ∈ first :: rest, n < limit) :
    WellFormed (splitRoot first).1 (splitRoot first).2 rest := by
  obtain ⟨hroot, hsecond⟩ := splitRoot_le first
  obtain ⟨hfirst, hrest⟩ := List.forall_mem_cons.1 h
  refine ⟨hroot, hsecond, ?_, hrest⟩
  rw [shared_splitRoot]
  exact hfirst

/-! ## Octets and text -/

theorem toBer_of_arcs {text : String} {root second : Nat} {rest : List Nat}
    (h : arcs text = .ok (root, second, rest)) :
    toBer text = .ok (((40 * root + second) :: rest).flatMap groups) := by
  simp [toBer, h, bind, Except.bind, pure, Except.pure]

theorem arcs_of_toBer {text : String} {ber : Bytes} (h : toBer text = .ok ber) :
    ∃ root second rest, arcs text = .ok (root, second, rest) ∧
      ber = ((40 * root + second) :: rest).flatMap groups := by
  cases harcs : arcs text with
  | error e => simp [toBer, harcs, bind, Except.bind] at h
  | ok triple =>
    obtain ⟨root, second, rest⟩ := triple
    rw [toBer_of_arcs harcs] at h
    exact ⟨root, second, rest, rfl, by simpa using h.symm⟩

theorem ofBer_flatMap_groups {root second : Nat} {rest : List Nat}
    (h : WellFormed root second rest) :
    ofBer (((40 * root + second) :: rest).flatMap groups) =
      .ok (dotted (root :: second :: rest)) := by
  have hlt : ∀ n ∈ (40 * root + second) :: rest, n < limit := by
    intro n hn
    rcases List.mem_cons.1 hn with rfl | hn
    · exact h.shared_lt
    · exact h.rest_lt n hn
  have hread := readGroups_flatMap_groups hlt
  generalize hber : ((40 * root + second) :: rest).flatMap groups = ber at hread
  unfold ofBer
  cases hl : ber.getLast? with
  | none =>
    rw [List.getLast?_eq_none_iff] at hl
    rw [List.flatMap_cons, hl] at hber
    exact absurd (List.append_eq_nil_iff.1 hber).1 (groups_ne_nil _)
  | some last =>
    have hlast : last.toNat < 128 := getLast?_flatMap_groups (hber ▸ hl)
    simp only [hread, bind, Except.bind]
    rw [if_neg (by omega)]
    simp only [splitRoot_shared h.root_le h.second_lt]
    rfl

/-- The octets of a dotted text are read as the text of its arcs. -/
theorem ofBer_of_toBer {text : String} {ber : Bytes} (h : toBer text = .ok ber) :
    ∃ spelling, ofBer ber = .ok spelling ∧ toBer spelling = .ok ber := by
  obtain ⟨root, second, rest, harcs, rfl⟩ := arcs_of_toBer h
  have hwf := (arcs_cases harcs).2
  exact ⟨_, ofBer_flatMap_groups hwf, toBer_of_arcs (arcs_dotted hwf)⟩

/-- Octets whose last one ends a number are those of one number or more. -/
theorem exists_cons_of_readGroups {ber : Bytes} {last : UInt8} {ns : List Nat}
    (hl : ber.getLast? = some last) (hlast : last.toNat < 128)
    (h : readGroups 0 true ber = .ok ns) :
    ∃ first rest, ns = first :: rest ∧ ber = ns.flatMap groups ∧ ∀ n ∈ ns, n < limit := by
  have hends : ∀ l, ber.getLast? = some l → l.toNat < 128 := by
    intro l hl'
    obtain rfl : last = l := by simpa [hl] using hl'
    exact hlast
  obtain ⟨hoctets, hlt⟩ := highGroups_of_readGroups h (by simp) hends (fun _ => rfl)
  rw [highGroups_zero] at hoctets
  cases ns with
  | nil =>
    obtain rfl : ber = [] := hoctets
    cases hl
  | cons first rest => exact ⟨first, rest, rfl, hoctets, hlt⟩

/-- A dotted text that was read from octets: its arcs, and the octets of them. -/
theorem arcs_of_ofBer {text : String} {ber : Bytes} (h : ofBer ber = .ok text) :
    ∃ root second rest, WellFormed root second rest ∧ text = dotted (root :: second :: rest) ∧
      ber = ((40 * root + second) :: rest).flatMap groups := by
  unfold ofBer at h
  cases hl : ber.getLast? with
  | none => simp [hl, bind, Except.bind, throw, throwThe, MonadExceptOf.throw] at h
  | some last =>
    by_cases hlast : 128 ≤ last.toNat
    · simp [hl, hlast, bind, Except.bind, throw, throwThe, MonadExceptOf.throw] at h
    · cases hread : readGroups 0 true ber with
      | error e => simp [hl, hlast, hread, bind, Except.bind] at h
      | ok ns =>
        obtain ⟨first, rest, rfl, hoctets, hlt⟩ := exists_cons_of_readGroups hl (by omega) hread
        refine ⟨(splitRoot first).1, (splitRoot first).2, rest, wellFormed_splitRoot hlt, ?_, ?_⟩
        · simpa [hl, hlast, hread, bind, Except.bind, pure, Except.pure] using h.symm
        · rw [shared_splitRoot]
          exact hoctets

/-- What is read from octets is the text of well-formed arcs. -/
theorem exists_ofBer_iff {text : String} :
    (∃ ber, ofBer ber = .ok text) ↔
      ∃ root second rest, WellFormed root second rest ∧ text = dotted (root :: second :: rest) := by
  constructor
  · rintro ⟨ber, h⟩
    obtain ⟨root, second, rest, hwf, htext, -⟩ := arcs_of_ofBer h
    exact ⟨root, second, rest, hwf, htext⟩
  · rintro ⟨root, second, rest, hwf, rfl⟩
    exact ⟨_, ofBer_flatMap_groups hwf⟩

/-- The octets that a dotted text was read from are its octets. -/
theorem toBer_of_ofBer {text : String} {ber : Bytes} (h : ofBer ber = .ok text) :
    toBer text = .ok ber := by
  obtain ⟨root, second, rest, hwf, rfl, rfl⟩ := arcs_of_ofBer h
  exact toBer_of_arcs (arcs_dotted hwf)

/-! ## The canonical spelling -/

/-- A text with octets has a canonical spelling, which has the same octets. -/
theorem canonical_of_toBer {text : String} {ber : Bytes} (h : toBer text = .ok ber) :
    ∃ spelling, canonical text = .ok spelling ∧ toBer spelling = .ok ber := by
  obtain ⟨spelling, hread, hwrite⟩ := ofBer_of_toBer h
  refine ⟨spelling, ?_, hwrite⟩
  simp [canonical, h, hread, bind, Except.bind]

/-- What has been read from octets is spelled canonically. -/
theorem canonical_of_ofBer {text : String} {ber : Bytes} (h : ofBer ber = .ok text) :
    canonical text = .ok text := by
  simp [canonical, toBer_of_ofBer h, h, bind, Except.bind]

theorem ofBer_of_canonical {text spelling : String} (h : canonical text = .ok spelling) :
    ∃ ber, toBer text = .ok ber ∧ ofBer ber = .ok spelling := by
  cases hber : toBer text with
  | error e => simp [canonical, hber, bind, Except.bind] at h
  | ok ber => exact ⟨ber, rfl, by simpa [canonical, hber, bind, Except.bind] using h⟩

/-- Canonical spellings are digits and points. -/
theorem mem_toList_of_ofBer {text : String} {ber : Bytes} (h : ofBer ber = .ok text) :
    text.toList ≠ [] ∧ ∀ c ∈ text.toList, c.isDigit = true ∨ c = '.' := by
  obtain ⟨root, second, rest, -, rfl, -⟩ := arcs_of_ofBer h
  rw [toList_dotted]
  refine ⟨?_, fun c hc => ?_⟩
  · simp [List.intercalate_cons_cons]
  · rcases Text.mem_intercalate hc with rfl | ⟨piece, hp, hc⟩
    · exact Or.inr rfl
    · obtain ⟨n, -, rfl⟩ := List.mem_map.1 hp
      exact Or.inl (Text.isDigit_of_mem_toDigits hc)

end Rim.Oid
