import Mathlib.Data.Nat.Bitwise
import Rim.Proofs.Oid

/-!
# Object identifiers on machine words

Both conversions once more, on words of 64 bits. What would be a fault of the machine stops the run
here: a difference below zero, or an index beyond the end of a list. Shifts drop the bits that they
move out of a word.

* `Oid.Words.toBer`, `Oid.Words.ofBer`: the conversions on words.
* `Oid.Words.toBer_eq`, `Oid.Words.ofBer_eq`: no run is stopped, and it comes to the same as the
  conversion on numbers of any size, so that no bit is lost either.

A word is compared with its number operation by operation; the loops follow by induction.
-/

namespace Rim.Oid.Words

/-- What stops a run. -/
inductive Fault where
  /-- The result of an operation does not fit into a word. -/
  | overflow
  /-- There is no such place in a list. -/
  | outOfRange
  deriving DecidableEq, Repr

/-! ## Operations -/

/-- The difference of two words. -/
def sub (a b : UInt64) : Except Fault UInt64 :=
  if b ≤ a then .ok (a - b) else .error .overflow

/-- The element at an index. -/
def elementAt (xs : List UInt64) (i : Nat) : Except Fault UInt64 :=
  match xs[i]? with
  | some x => .ok x
  | none => .error .outOfRange

/-- The elements from an index on, which may be the end. -/
def sliceFrom (xs : List UInt64) (i : Nat) : Except Fault (List UInt64) :=
  if i ≤ xs.length then .ok (xs.drop i) else .error .outOfRange

/-- The product, if it fits. -/
def checkedMul (a b : UInt64) : Option UInt64 :=
  if a.toNat * b.toNat < UInt64.size then some (a * b) else none

/-- The sum, if it fits. -/
def checkedAdd (a b : UInt64) : Option UInt64 :=
  if a.toNat + b.toNat < UInt64.size then some (a + b) else none

/-! ## The conversions -/

/-- The groups of a word above its lowest one, in front of `tail`. -/
def highGroups (n : UInt64) (tail : Bytes) : Bytes :=
  if h : n = 0 then tail
  else highGroups (n >>> 7) (((n &&& 0x7f).toUInt8 ||| 0x80) :: tail)
termination_by n.toNat
decreasing_by
  have hpos : n.toNat ≠ 0 := fun hzero => h (UInt64.toNat_inj.1 hzero)
  have hshift : (n >>> 7).toNat = n.toNat / 128 := by
    rw [UInt64.toNat_shiftRight]
    exact Nat.shiftRight_eq_div_pow n.toNat 7
  omega

/-- The octets of one sub-identifier. -/
def groups (n : UInt64) : Bytes := highGroups (n >>> 7) [(n &&& 0x7f).toUInt8]

/-- Reads sub-identifiers to the end. -/
def readGroups : (acc : UInt64) → (starting : Bool) → Bytes → Except Error (List UInt64)
  | _, _, [] => .ok []
  | acc, starting, b :: rest =>
    if starting ∧ b = 0x80 then .error .nonMinimal
    else if (0xffffffffffffffff : UInt64) >>> 7 < acc then .error .overflow
    else
      let acc := acc <<< 7 ||| (b &&& 0x7f).toUInt64
      if b &&& 0x80 = 0 then return acc :: (← readGroups 0 true rest)
      else readGroups acc false rest

/-- The number that the first two arcs share, if it fits. -/
def sharedRoot (root second : UInt64) : Option UInt64 :=
  (checkedMul root 40).bind fun n => checkedAdd n second

/-- The arcs that share the first sub-identifier. -/
def splitRoot (n : UInt64) : Except Fault (UInt64 × UInt64) :=
  if n < 40 then return (0, n)
  else if n < 80 then return (1, ← sub n 40)
  else return (2, ← sub n 80)

/-- The arcs of a dotted text, as words. -/
def numbers (dotted : String) : Except Error (List UInt64) :=
  ((Text.split '.' dotted.toList).mapM readArc).map (·.map UInt64.ofNat)

/-- The content octets of a dotted text. -/
def toBer (dotted : String) : Except Fault (Except Error Bytes) :=
  match numbers dotted with
  | .error e => return .error e
  | .ok arcs => do
    if arcs.length < 2 then return .error (.tooFewArcs dotted)
    let root ← elementAt arcs 0
    let second ← elementAt arcs 1
    if 2 < root ∨ (root < 2 ∧ 40 ≤ second) then return .error (.invalidRoot dotted)
    match sharedRoot root second with
    | none => return .error (.rootOverflow dotted)
    | some first =>
      let rest ← sliceFrom arcs 2
      return .ok ((first :: rest).flatMap groups)

/-- The dotted text of content octets. -/
def ofBer (ber : Bytes) : Except Fault (Except Error String) :=
  match ber.getLast? with
  | none => return .error .empty
  | some last => do
    if last &&& 0x80 ≠ 0 then return .error .truncated
    match readGroups 0 true ber with
    | .error e => return .error e
    | .ok subs =>
      let first ← elementAt subs 0
      let (root, second) ← splitRoot first
      let rest ← sliceFrom subs 1
      return .ok (dotted ((root :: second :: rest).map UInt64.toNat))

/-! ## Words and their numbers -/

theorem toNat_shift (n : UInt64) : (n >>> 7).toNat = n.toNat / 128 := by
  rw [UInt64.toNat_shiftRight]
  exact Nat.shiftRight_eq_div_pow n.toNat 7

theorem toNat_lowGroup (n : UInt64) : (n &&& 0x7f).toUInt8.toNat = n.toNat % 128 := by
  have hmask : (n &&& 0x7f).toNat = n.toNat % 128 := by
    rw [UInt64.toNat_and]
    exact Nat.and_two_pow_sub_one_eq_mod n.toNat 7
  rw [UInt64.toNat_toUInt8, hmask]
  omega

theorem toNat_setHigh {b : UInt8} (h : b.toNat < 128) : (b ||| 0x80).toNat = b.toNat + 128 := by
  have hsum := Nat.two_pow_add_eq_or_of_lt (i := 7) h 1
  rw [UInt8.toNat_or, Nat.or_comm, Nat.add_comm]
  exact hsum.symm

/-- The continuation bit is that of 128. -/
theorem and_high_eq_zero_iff (b : UInt8) : b &&& 0x80 = 0 ↔ b.toNat < 128 := by
  have hand : (b &&& 0x80).toNat = (b.toNat.testBit 7).toNat * 128 := by
    rw [UInt8.toNat_and]
    exact Nat.and_two_pow b.toNat 7
  have hb := b.toNat_lt
  have hbit : b.toNat.testBit 7 = decide (b.toNat / 128 % 2 = 1) :=
    Nat.testBit_eq_decide_div_mod_eq
  rw [← UInt8.toNat_inj, hand, hbit]
  show _ * 128 = 0 ↔ _
  by_cases hlow : b.toNat < 128
  · have hdiv : ¬ b.toNat / 128 % 2 = 1 := by omega
    simp [hdiv, hlow]
  · have hdiv : b.toNat / 128 % 2 = 1 := by omega
    simp [hdiv, hlow]

/-- The test in front of the shift tells exactly the words that would lose bits. -/
theorem overflows_iff (acc : UInt64) :
    (0xffffffffffffffff : UInt64) >>> 7 < acc ↔ limit ≤ acc.toNat * 128 := by
  have hbound : ((0xffffffffffffffff : UInt64) >>> 7).toNat = 144115188075855871 := by decide
  have hlimit := limit_eq
  rw [UInt64.lt_iff_toNat_lt, hbound]
  omega

theorem toNat_append {acc : UInt64} (h : acc.toNat * 128 < limit) (b : UInt8) :
    (acc <<< 7 ||| (b &&& 0x7f).toUInt64).toNat = acc.toNat * 128 + b.toNat % 128 := by
  have hmask : (b &&& 0x7f).toUInt64.toNat = b.toNat % 128 := by
    rw [UInt8.toNat_toUInt64, UInt8.toNat_and]
    exact Nat.and_two_pow_sub_one_eq_mod b.toNat 7
  have hshift : (acc <<< 7).toNat = acc.toNat <<< 7 := by
    rw [UInt64.toNat_shiftLeft]
    refine Nat.mod_eq_of_lt ?_
    rw [Nat.shiftLeft_eq]
    exact h
  have hlow : b.toNat % 128 < 2 ^ 7 := Nat.mod_lt _ (by decide)
  rw [UInt64.toNat_or, hshift, hmask, ← Nat.shiftLeft_add_eq_or_of_lt hlow, Nat.shiftLeft_eq]

/-! ## Groups -/

theorem highGroups_eq (n : UInt64) (tail : Bytes) :
    highGroups n tail = Oid.highGroups n.toNat tail := by
  induction n, tail using highGroups.induct with
  | case1 tail => rw [highGroups, dif_pos rfl, UInt64.toNat_zero, highGroups_zero]
  | case2 n tail h ih =>
    have hpos : n.toNat ≠ 0 := fun hzero => h (UInt64.toNat_inj.1 hzero)
    have hgroup : (n &&& 0x7f).toUInt8 ||| 0x80 = UInt8.ofNat (n.toNat % 128 + 128) := by
      apply UInt8.toNat_inj.1
      rw [toNat_setHigh (by rw [toNat_lowGroup]; omega), toNat_lowGroup, toNat_high]
    rw [highGroups, dif_neg h, ih, toNat_shift, hgroup, ← highGroups_pos hpos]

theorem groups_eq (n : UInt64) : groups n = Oid.groups n.toNat := by
  have hgroup : (n &&& 0x7f).toUInt8 = UInt8.ofNat (n.toNat % 128) := by
    apply UInt8.toNat_inj.1
    rw [toNat_lowGroup, toNat_low]
  rw [groups, highGroups_eq, toNat_shift, hgroup, Oid.groups]

/-- No bit of a sub-identifier is lost on the way into its word. -/
theorem readGroups_eq (acc : UInt64) (starting : Bool) (bs : Bytes) :
    (readGroups acc starting bs).map (·.map UInt64.toNat) =
      Oid.readGroups acc.toNat starting bs := by
  induction bs generalizing acc starting with
  | nil => rfl
  | cons b rest ih =>
    unfold readGroups Oid.readGroups
    by_cases hmin : starting = true ∧ b = 0x80
    · rw [if_pos hmin, if_pos hmin]
      rfl
    by_cases hover : limit ≤ acc.toNat * 128
    · rw [if_neg hmin, if_neg hmin, if_pos ((overflows_iff acc).2 hover), if_pos hover]
      rfl
    · rw [if_neg hmin, if_neg hmin, if_neg (fun h => hover ((overflows_iff acc).1 h)),
        if_neg hover]
      have hacc := toNat_append (Nat.lt_of_not_le hover) b
      by_cases hb : b.toNat < 128
      · have hrest := ih 0 true
        rw [UInt64.toNat_zero] at hrest
        simp only [(and_high_eq_zero_iff b).2 hb, hb, if_true, ← hrest, ← hacc]
        cases readGroups 0 true rest <;> rfl
      · have hhigh : ¬ b &&& 0x80 = 0 := fun h => hb ((and_high_eq_zero_iff b).1 h)
        simp only [hhigh, hb, if_false, ← hacc]
        exact ih _ false

/-! ## From text to octets -/

theorem toNat_ofNat {n : Nat} (h : n < limit) : (UInt64.ofNat n).toNat = n :=
  UInt64.toNat_ofNat_of_lt h

/-- The shared number is given up exactly if it does not fit. -/
theorem sharedRoot_eq {root second : UInt64} (hroot : root.toNat ≤ 2) :
    sharedRoot root second =
      if limit ≤ 40 * root.toNat + second.toNat then none
      else some (UInt64.ofNat (40 * root.toNat + second.toNat)) := by
  have hlimit : limit = UInt64.size := rfl
  have hsize : UInt64.size = 18446744073709551616 := rfl
  have hforty : (40 : UInt64).toNat = 40 := rfl
  have hproduct : (root * 40).toNat = root.toNat * 40 := by
    rw [UInt64.toNat_mul, hforty]
    exact Nat.mod_eq_of_lt (by omega)
  have hmul : checkedMul root 40 = some (root * 40) := by
    rw [checkedMul, hforty, if_pos (by omega)]
  rw [sharedRoot, hmul, Option.bind_some, checkedAdd, hproduct, Nat.mul_comm root.toNat 40]
  by_cases hover : limit ≤ 40 * root.toNat + second.toNat
  · rw [if_neg (by omega), if_pos hover]
  · rw [if_pos (by omega), if_neg hover, UInt64.ofNat_add, UInt64.ofNat_mul, UInt64.ofNat_toNat,
      UInt64.ofNat_toNat, UInt64.mul_comm]
    rfl

theorem flatMap_groups_map {ns : List Nat} (h : ∀ n ∈ ns, n < limit) :
    (ns.map UInt64.ofNat).flatMap groups = ns.flatMap Oid.groups := by
  rw [List.flatMap_map]
  refine congrArg List.flatten (List.map_congr_left fun n hn => ?_)
  rw [groups_eq, toNat_ofNat (h n hn)]

/-- No arc is missing where one is looked at, and nothing overflows: writing is never stopped. -/
theorem toBer_eq (dotted : String) : toBer dotted = .ok (Oid.toBer dotted) := by
  cases hpieces : (Text.split '.' dotted.toList).mapM readArc with
  | error e =>
    unfold toBer numbers Oid.toBer arcs
    rw [hpieces]
    rfl
  | ok ns =>
    have hlt := mapM_readArc_lt hpieces
    match ns, hlt with
    | [], _ | [_], _ =>
      unfold toBer numbers Oid.toBer arcs
      rw [hpieces]
      rfl
    | root :: second :: rest, hlt =>
      have hroot := toNat_ofNat (hlt root (by simp))
      have hsecond := toNat_ofNat (hlt second (by simp))
      have hinvalid : (2 < UInt64.ofNat root ∨
          (UInt64.ofNat root < 2 ∧ 40 ≤ UInt64.ofNat second)) ↔
            2 < root ∨ (root < 2 ∧ 40 ≤ second) := by
        rw [UInt64.lt_iff_toNat_lt, UInt64.lt_iff_toNat_lt, UInt64.le_iff_toNat_le, hroot, hsecond]
        rfl
      have hnumbers : numbers dotted =
          .ok (UInt64.ofNat root :: UInt64.ofNat second :: rest.map UInt64.ofNat) := by
        rw [numbers, hpieces]
        rfl
      unfold toBer Oid.toBer
      rw [hnumbers, arcs_of_pieces hpieces]
      show (if 2 < UInt64.ofNat root ∨ (UInt64.ofNat root < 2 ∧ 40 ≤ UInt64.ofNat second) then _
        else _) = _
      by_cases hbad : 2 < root ∨ (root < 2 ∧ 40 ≤ second)
      · rw [if_pos (hinvalid.2 hbad), if_pos hbad]
        rfl
      · rw [if_neg (fun h => hbad (hinvalid.1 h)), if_neg hbad, sharedRoot_eq (by omega), hroot,
          hsecond]
        by_cases hover : limit ≤ 40 * root + second
        · rw [if_pos hover, if_pos hover]
          rfl
        · rw [if_neg hover, if_neg hover]
          have hfits : ∀ n ∈ (40 * root + second) :: rest, n < limit := by
            intro n hn
            rcases List.mem_cons.1 hn with rfl | hn
            · omega
            · exact hlt n (by simp [hn])
          exact congrArg (fun bs => Except.ok (Except.ok bs)) (flatMap_groups_map hfits)

/-! ## From octets to text -/

/-- The differences are taken of words that are large enough. -/
theorem splitRoot_eq (n : UInt64) :
    ∃ root second, splitRoot n = .ok (root, second) ∧
      (root.toNat, second.toNat) = Oid.splitRoot n.toNat := by
  have hforty : n < 40 ↔ n.toNat < 40 := UInt64.lt_iff_toNat_lt
  have height : n < 80 ↔ n.toNat < 80 := UInt64.lt_iff_toNat_lt
  unfold splitRoot Oid.splitRoot
  by_cases hlow : n.toNat < 40
  · rw [if_pos (hforty.2 hlow), if_pos hlow]
    exact ⟨0, n, rfl, rfl⟩
  rw [if_neg (fun h => hlow (hforty.1 h)), if_neg hlow]
  by_cases hmiddle : n.toNat < 80
  · have hle : 40 ≤ n := UInt64.le_iff_toNat_le.2 (Nat.le_of_not_lt hlow)
    rw [if_pos (height.2 hmiddle), if_pos hmiddle, sub, if_pos hle]
    exact ⟨1, n - 40, rfl, by rw [UInt64.toNat_sub_of_le _ _ hle]; rfl⟩
  · have hle : 80 ≤ n := UInt64.le_iff_toNat_le.2 (Nat.le_of_not_lt hmiddle)
    rw [if_neg (fun h => hmiddle (height.1 h)), if_neg hmiddle, sub, if_pos hle]
    exact ⟨2, n - 80, rfl, by rw [UInt64.toNat_sub_of_le _ _ hle]; rfl⟩

/-- Octets that end with a sub-identifier have at least one, and no operation overflows: reading is
never stopped. -/
theorem ofBer_eq (ber : Bytes) : ofBer ber = .ok (Oid.ofBer ber) := by
  unfold ofBer Oid.ofBer
  cases hl : ber.getLast? with
  | none => rfl
  | some last =>
    by_cases hlast : last.toNat < 128
    · have hends : ¬ (last &&& 0x80 ≠ 0) := fun h => h ((and_high_eq_zero_iff last).2 hlast)
      have hword := readGroups_eq 0 true ber
      simp only [if_neg hends, if_neg (Nat.not_le.2 hlast)]
      cases hread : readGroups 0 true ber with
      | error e =>
        rw [hread] at hword
        have hnumbers : Oid.readGroups 0 true ber = .error e := hword.symm
        rw [hnumbers]
        rfl
      | ok subs =>
        rw [hread] at hword
        have hnumbers : Oid.readGroups 0 true ber = .ok (subs.map UInt64.toNat) := hword.symm
        obtain ⟨_, _, hcons, -⟩ := exists_cons_of_readGroups hl hlast hnumbers
        obtain ⟨first, rest, rfl, -, -⟩ := List.map_eq_cons_iff.1 hcons
        obtain ⟨root, second, hsplit, hpair⟩ := splitRoot_eq first
        rw [hnumbers]
        show (splitRoot first >>= _) = _
        rw [hsplit]
        show _ = Except.ok (Except.ok (Oid.dotted ((Oid.splitRoot first.toNat).1 ::
          (Oid.splitRoot first.toNat).2 :: rest.map UInt64.toNat)))
        rw [← hpair]
        rfl
    · have hends : last &&& 0x80 ≠ 0 := fun h => hlast ((and_high_eq_zero_iff last).1 h)
      simp only [if_pos hends, if_pos (Nat.le_of_not_lt hlast)]
      rfl

end Rim.Oid.Words
