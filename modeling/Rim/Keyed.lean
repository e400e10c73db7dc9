/-!
# Sorted tables

* `Keyed`: values under texts.
* `Keyed.Sorted`: each text stands once, and in order. What holds a table holds this with it.
* `Keyed.find?`, `Keyed.insert`, `Keyed.erase`: look-up, and changes that keep a table sorted.
-/

namespace Rim

/-- Values under keys. -/
abbrev Keyed (α : Type) := List (String × α)

namespace Keyed

variable {α : Type}

/-- The value under a key. -/
def find? (key : String) : Keyed α → Option α
  | [] => none
  | (k, v) :: rest => if k = key then some v else find? key rest

/-- Puts a value under a key, in the place of the one that was there. -/
def insert (key : String) (value : α) : Keyed α → Keyed α
  | [] => [(key, value)]
  | (k, v) :: rest =>
    if k = key then (key, value) :: rest
    else if key < k then (key, value) :: (k, v) :: rest
    else (k, v) :: insert key value rest

/-- Removes a key. -/
def erase (key : String) (table : Keyed α) : Keyed α := table.filter fun (k, _) => k ≠ key

/-- Whether there is a value under a key. -/
def contains (key : String) (table : Keyed α) : Bool := (find? key table).isSome

def keys (table : Keyed α) : List String := table.map (·.1)

/-- Each key stands once, and in order. -/
def Sorted (table : Keyed α) : Prop := (keys table).Pairwise (· < ·)

instance (table : Keyed α) : Decidable table.Sorted :=
  inferInstanceAs (Decidable ((keys table).Pairwise (· < ·)))

/-! ## Look-up -/

@[simp] theorem find?_nil (key : String) : find? key ([] : Keyed α) = none := rfl

@[simp] theorem find?_insert_self (key : String) (value : α) (table : Keyed α) :
    find? key (insert key value table) = some value := by
  induction table with
  | nil => simp [insert, find?]
  | cons entry rest ih =>
    obtain ⟨k, v⟩ := entry
    unfold insert
    split
    next => simp [find?]
    next h =>
      split
      next => simp [find?]
      next => simp [find?, h, ih]

theorem find?_insert_of_ne {key other : String} (h : other ≠ key) (value : α) (table : Keyed α) :
    find? other (insert key value table) = find? other table := by
  induction table with
  | nil => simp [insert, find?, Ne.symm h]
  | cons entry rest ih =>
    obtain ⟨k, v⟩ := entry
    unfold insert
    split
    next hk => simp [find?, hk, Ne.symm h]
    next =>
      split
      next => simp [find?, Ne.symm h]
      next => simp [find?, ih]

/-! ## Order -/

theorem sorted_nil : Sorted ([] : Keyed α) := List.Pairwise.nil

theorem sorted_cons {entry : String × α} {rest : Keyed α} :
    Sorted (entry :: rest) ↔ (∀ e ∈ rest, entry.1 < e.1) ∧ Sorted rest := by
  simp [Sorted, keys]

theorem mem_insert {key : String} {value : α} {table : Keyed α} {e : String × α}
    (h : e ∈ insert key value table) : e = (key, value) ∨ e ∈ table := by
  induction table with
  | nil => exact Or.inl (by simpa [insert] using h)
  | cons entry rest ih =>
    obtain ⟨k, v⟩ := entry
    unfold insert at h
    split at h
    next =>
      rcases List.mem_cons.1 h with h | h
      · exact Or.inl h
      · exact Or.inr (List.mem_cons_of_mem _ h)
    next =>
      split at h
      next =>
        rcases List.mem_cons.1 h with h | h
        · exact Or.inl h
        · exact Or.inr h
      next =>
        rcases List.mem_cons.1 h with h | h
        · exact Or.inr (by simp [h])
        · rcases ih h with h | h
          · exact Or.inl h
          · exact Or.inr (List.mem_cons_of_mem _ h)

theorem sorted_insert {table : Keyed α} (hs : Sorted table) (key : String) (value : α) :
    Sorted (insert key value table) := by
  induction table with
  | nil => simp [insert, Sorted, keys]
  | cons entry rest ih =>
    obtain ⟨k, v⟩ := entry
    obtain ⟨hlt, hrest⟩ := sorted_cons.1 hs
    unfold insert
    split
    next heq =>
      subst heq
      exact sorted_cons.2 ⟨hlt, hrest⟩
    next hne =>
      split
      next hbefore =>
        refine sorted_cons.2 ⟨fun e he => ?_, hs⟩
        rcases List.mem_cons.1 he with rfl | he
        · exact hbefore
        · exact String.lt_trans hbefore (hlt e he)
      next hafter =>
        refine sorted_cons.2 ⟨fun e he => ?_, ih hrest⟩
        rcases mem_insert he with rfl | he
        · exact Std.lt_of_le_of_ne (String.not_lt.1 hafter) hne
        · exact hlt e he

theorem sorted_filter {table : Keyed α} (hs : Sorted table) (keep : String × α → Bool) :
    Sorted (List.filter keep table) :=
  List.Pairwise.sublist (List.Sublist.map _ List.filter_sublist) hs

theorem sorted_erase {table : Keyed α} (hs : Sorted table) (key : String) :
    Sorted (erase key table) := sorted_filter hs _

end Keyed

end Rim
