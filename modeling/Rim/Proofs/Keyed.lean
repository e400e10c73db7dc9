import Mathlib.Data.List.Nodup
import Mathlib.Data.String.Basic
import Rim.Keyed

/-!
# Look-up decides a sorted table

* `Keyed.find?_eq_some_iff`: the entries of a sorted table are what is found in it.
* `Keyed.insert_comm`: changes of different keys may be made in any order.
* `Keyed.eq_of_find?`: sorted tables that hold the same values under the same keys are equal.
* `find?_of_nodup_map`: in a list without repeated keys a key finds its own element.
-/

namespace Rim

universe u

/-- In a list without repeated keys a key finds its own element. -/
theorem find?_of_nodup_map {α : Type u} {κ : Type} [DecidableEq κ] {key : α → κ} {xs : List α}
    {x : α} (h : (xs.map key).Nodup) (hx : x ∈ xs) :
    xs.find? (fun y => key y = key x) = some x := by
  cases hfind : xs.find? (fun y => key y = key x) with
  | none => simpa using List.find?_eq_none.1 hfind x hx
  | some y =>
    have hkey : key y = key x := by simpa using List.find?_some hfind
    rw [List.inj_on_of_nodup_map h (List.mem_of_find?_eq_some hfind) hx hkey]

/-- An element with a new key repeats none. -/
theorem nodup_map_append_singleton {α κ : Type} {key : α → κ} {xs : List α} {x : α}
    (h : (xs.map key).Nodup) (hx : ∀ y ∈ xs, key y ≠ key x) : ((xs ++ [x]).map key).Nodup := by
  rw [List.map_append, List.nodup_append]
  refine ⟨h, by simp, ?_⟩
  intro k hk l hl
  obtain ⟨y, hy, rfl⟩ := List.mem_map.1 hk
  obtain rfl : l = key x := by simpa using hl
  exact hx y hy

namespace Keyed

variable {α : Type}

theorem find?_eq_none {key : String} {table : Keyed α} :
    find? key table = none ↔ ∀ e ∈ table, e.1 ≠ key := by
  induction table with
  | nil => simp
  | cons entry rest ih =>
    obtain ⟨k, v⟩ := entry
    by_cases h : k = key <;> simp [find?, h, ih]

theorem mem_of_find? {key : String} {value : α} {table : Keyed α}
    (h : find? key table = some value) : (key, value) ∈ table := by
  induction table with
  | nil => simp at h
  | cons entry rest ih =>
    obtain ⟨k, v⟩ := entry
    by_cases hk : k = key
    · obtain rfl : v = value := by simpa [find?, hk] using h
      simp [hk]
    · exact List.mem_cons_of_mem _ (ih (by simpa [find?, hk] using h))

/-- In a sorted table every entry is found. -/
theorem find?_of_mem {key : String} {value : α} {table : Keyed α} (hs : Sorted table)
    (h : (key, value) ∈ table) : find? key table = some value := by
  induction table with
  | nil => simp at h
  | cons entry rest ih =>
    obtain ⟨k, v⟩ := entry
    obtain ⟨hlt, hrest⟩ := sorted_cons.1 hs
    rcases List.mem_cons.1 h with heq | hmem
    · obtain ⟨rfl, rfl⟩ : key = k ∧ value = v := by simpa using heq
      simp [find?]
    · have hne : k ≠ key := (hlt _ hmem).ne
      simpa [find?, hne] using ih hrest hmem

theorem find?_eq_some_iff {key : String} {value : α} {table : Keyed α} (h : Sorted table) :
    find? key table = some value ↔ (key, value) ∈ table :=
  ⟨mem_of_find?, find?_of_mem h⟩

/-! ## Changes -/

/-- A key that is not there yet makes the table longer by one. -/
theorem length_insert {key : String} {table : Keyed α} (h : find? key table = none) (value : α) :
    List.length (insert key value table) = List.length table + 1 := by
  induction table with
  | nil => rfl
  | cons entry rest ih =>
    obtain ⟨k, v⟩ := entry
    have hne : k ≠ key := find?_eq_none.1 h (k, v) (by simp)
    have hrest : find? key rest = none := by simpa [find?, hne] using h
    unfold insert
    rw [if_neg hne]
    split
    · rfl
    · rw [List.length_cons, ih hrest, List.length_cons]

/-- A key behind all others is put last. -/
theorem insert_of_lt {key : String} {table : Keyed α} (h : ∀ e ∈ table, e.1 < key) (value : α) :
    insert key value table = table ++ [(key, value)] := by
  induction table with
  | nil => rfl
  | cons entry rest ih =>
    obtain ⟨k, v⟩ := entry
    have hlt : k < key := h (k, v) (by simp)
    unfold insert
    rw [if_neg hlt.ne, if_neg hlt.not_gt, ih fun e he => h e (List.mem_cons_of_mem _ he)]
    rfl

/-- The entries of a sorted table, put behind others in turn, follow them in their order. -/
theorem foldl_insert_of_sorted {front rest : Keyed α} (h : Sorted (front ++ rest)) :
    rest.foldl (fun table e => insert e.1 e.2 table) front = front ++ rest := by
  induction rest generalizing front with
  | nil => simp
  | cons entry rest ih =>
    have hbehind : ∀ e ∈ front, e.1 < entry.1 := by
      intro e he
      have hpairs := List.pairwise_append.1 (List.pairwise_map.1 h)
      exact hpairs.2.2 e he entry (by simp)
    rw [List.append_cons] at h ⊢
    rw [List.foldl_cons, insert_of_lt hbehind]
    exact ih h

/-- Changes of different keys do not depend on which of them is made first. -/
theorem insert_comm {key other : String} (h : key ≠ other) (value w : α) (table : Keyed α) :
    insert key value (insert other w table) = insert other w (insert key value table) := by
  induction table with
  | nil =>
    rcases lt_or_gt_of_ne h with hlt | hgt
    · simp [insert, h, h.symm, hlt, hlt.not_gt]
    · simp [insert, h, h.symm, hgt, hgt.not_gt]
  | cons entry rest ih =>
    obtain ⟨k, v⟩ := entry
    grind [insert]

/-! ## Equality -/

/-- The first key of a table is not before the first key of one that holds the same keys. -/
theorem not_lt_of_find? {k l : String} {v : α} {rest others : Keyed α}
    (hothers : ∀ e ∈ others, l < e.1) (w : α)
    (h : find? k ((k, v) :: rest) = find? k ((l, w) :: others)) : ¬ k < l := by
  intro hlt
  have hnone : find? k ((l, w) :: others) = none := by
    refine find?_eq_none.2 fun e he => ?_
    rcases List.mem_cons.1 he with rfl | he
    · exact hlt.ne'
    · exact (lt_trans hlt (hothers e he)).ne'
  rw [hnone] at h
  simp [find?] at h

/-- Sorted tables that hold the same values under the same keys are equal. -/
theorem eq_of_find? : ∀ {s t : Keyed α}, Sorted s → Sorted t →
    (∀ key, find? key s = find? key t) → s = t
  | [], [], _, _, _ => rfl
  | [], (l, w) :: others, _, _, h => by simpa [find?] using h l
  | (k, v) :: rest, [], _, _, h => by simpa [find?] using h k
  | (k, v) :: rest, (l, w) :: others, hs, ht, h => by
    obtain ⟨hrest, hs'⟩ := sorted_cons.1 hs
    obtain ⟨hothers, ht'⟩ := sorted_cons.1 ht
    -- A smaller first key of one table would be missing in the other.
    have hkl : ¬ k < l := not_lt_of_find? hothers w (h k)
    have hlk : ¬ l < k := not_lt_of_find? hrest v (h l).symm
    obtain rfl : k = l := le_antisymm (not_lt.1 hlk) (not_lt.1 hkl)
    obtain rfl : v = w := by simpa [find?] using h k
    -- Behind the first key both tables still hold the same.
    have htail : rest = others := by
      refine eq_of_find? hs' ht' fun key => ?_
      by_cases hkey : k = key
      · subst hkey
        rw [find?_eq_none.2 fun e he => (hrest e he).ne',
          find?_eq_none.2 fun e he => (hothers e he).ne']
      · simpa [find?, hkey] using h key
    rw [htail]

end Keyed

end Rim
