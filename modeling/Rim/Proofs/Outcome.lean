import Mathlib.Data.List.Forall2
import Rim.Wire.Coding
import Rim.Wire.Decoding

/-!
# What a success tells about its steps

* `Except.bind_eq_ok_iff`, `Except.mapError_eq_ok_iff`, `Except.mapM_eq_ok_iff`: a computation of
  several steps succeeds exactly when each of them does.
* `Decoding.bind_eq_ok_iff`, `Decoding.mapError_eq_ok_iff`: the same for decodes, whose counts add
  up.
* `Except.if_throw_eq_ok_iff`, `Except.unless_throw_eq_ok_iff`: a guarded computation succeeds
  exactly when it is let through and succeeds.
* `Coding.decodeFrom_of_forall₂`, `Decoding.listFrom_of_forall₂`: lists are read element by element.
* `forall_mem_iff_of_forall₂` and its siblings: what is known of two lists element by element.
* `Cbor.eq_of_expectTag`, `Json.eq_of_expectObject`: a value that is taken for one of a kind is of
  that kind.
* `Json.Members.mem_of_remove?`, `Json.Envelope.mem_of_ofJson`: what is taken out of an object was
  in it.
-/

namespace Rim

universe u v

/-! ## Outcomes -/

namespace Except

variable {ε α β : Type}

theorem bind_eq_ok_iff {x : Except ε α} {next : α → Except ε β} {b : β} :
    (x >>= next) = .ok b ↔ ∃ a, x = .ok a ∧ next a = .ok b := by
  cases x <;> simp [bind, Except.bind]

theorem bind_eq_error_iff {x : Except ε α} {next : α → Except ε β} {e : ε} :
    (x >>= next) = .error e ↔ x = .error e ∨ ∃ a, x = .ok a ∧ next a = .error e := by
  cases x <;> simp [bind, Except.bind]

@[simp] theorem mapError_ok {ζ : Type} (wrap : ε → ζ) (a : α) :
    (Except.ok a).mapError wrap = .ok a := rfl

@[simp] theorem mapError_error {ζ : Type} (wrap : ε → ζ) (e : ε) :
    (Except.error e : Except ε α).mapError wrap = .error (wrap e) := rfl

theorem mapError_eq_ok_iff {ζ : Type} {wrap : ε → ζ} {x : Except ε α} {a : α} :
    x.mapError wrap = .ok a ↔ x = .ok a := by
  cases x <;> simp

theorem map_eq_ok_iff {g : α → β} {x : Except ε α} {b : β} :
    x.map g = .ok b ↔ ∃ a, x = .ok a ∧ g a = b := by
  cases x <;> simp [Except.map]

theorem pure_eq_ok_iff {a b : α} : (pure a : Except ε α) = .ok b ↔ a = b := by
  simp [pure, Except.pure]

@[simp] theorem throw_ne_ok {e : ε} {a : α} : (throw e : Except ε α) ≠ .ok a := by
  simp [throw, throwThe, MonadExceptOf.throw]

@[simp] theorem throw_bind {e : ε} {next : α → Except ε β} :
    (throw e : Except ε α) >>= next = throw e := rfl

/-- A computation behind a check succeeds exactly when the check passes and it succeeds. -/
theorem if_throw_eq_ok_iff {p : Prop} [Decidable p] {e : ε} {next : α → Except ε β}
    {x : Except ε β} {b : β} :
    (if p then throw e >>= next else x) = .ok b ↔ ¬ p ∧ x = .ok b := by
  by_cases h : p <;> simp [h]

theorem unless_throw_eq_ok_iff {p : Prop} [Decidable p] {e : ε} {next : α → Except ε β}
    {x : Except ε β} {b : β} :
    (if p then x else throw e >>= next) = .ok b ↔ p ∧ x = .ok b := by
  rw [← ite_not, if_throw_eq_ok_iff, not_not]

/-- A traversal succeeds exactly when it does so on every element. -/
theorem mapM_eq_ok_iff {step : α → Except ε β} {xs : List α} {ys : List β} :
    xs.mapM step = .ok ys ↔ List.Forall₂ (fun x y => step x = .ok y) xs ys := by
  induction xs generalizing ys with
  | nil =>
    rw [List.mapM_nil, pure_eq_ok_iff, List.forall₂_nil_left_iff]
    exact eq_comm
  | cons x rest ih =>
    rw [List.mapM_cons, bind_eq_ok_iff, List.forall₂_cons_left_iff]
    constructor
    · rintro ⟨y, hy, hrest⟩
      obtain ⟨others, hothers, hys⟩ := bind_eq_ok_iff.1 hrest
      exact ⟨y, others, hy, ih.1 hothers, (pure_eq_ok_iff.1 hys).symm⟩
    · rintro ⟨y, others, hy, hothers, rfl⟩
      exact ⟨y, hy, bind_eq_ok_iff.2 ⟨others, ih.2 hothers, rfl⟩⟩

end Except

/-- What means the same of two lists element by element means the same of the lists. -/
theorem forall_mem_iff_of_forall₂ {α β : Type} {P : α → Prop} {Q : β → Prop} {xs : List α}
    {ys : List β} (h : List.Forall₂ (fun x y => P x ↔ Q y) xs ys) :
    (∀ x ∈ xs, P x) ↔ ∀ y ∈ ys, Q y := by
  induction h with
  | nil => simp
  | cons hxy _ ih => rw [List.forall_mem_cons, List.forall_mem_cons, hxy, ih]

theorem forall_mem_left_of_forall₂ {α β : Type} {P : α → Prop} {xs : List α} {ys : List β}
    (h : List.Forall₂ (fun x _ => P x) xs ys) : ∀ x ∈ xs, P x :=
  (forall_mem_iff_of_forall₂ (h.imp fun _ _ hx => iff_of_true hx trivial)).2 fun _ _ => trivial

theorem forall_mem_right_of_forall₂ {α β : Type} {P : β → Prop} {xs : List α} {ys : List β}
    (h : List.Forall₂ (fun _ y => P y) xs ys) : ∀ y ∈ ys, P y :=
  (forall_mem_iff_of_forall₂ (h.imp fun _ _ hy => iff_of_true trivial hy)).1 fun _ _ => trivial

/-- Every element on the left has one on the right that it is related to. -/
theorem exists_mem_right_of_forall₂ {α : Type u} {β : Type v} {P : α → β → Prop} {xs : List α}
    {ys : List β} (h : List.Forall₂ P xs ys) : ∀ x ∈ xs, ∃ y ∈ ys, P x y := by
  induction h with
  | nil => simp
  | cons hxy _ ih =>
    refine List.forall_mem_cons.2 ⟨⟨_, by simp, hxy⟩, fun x hx => ?_⟩
    obtain ⟨y, hy, hP⟩ := ih x hx
    exact ⟨y, List.mem_cons_of_mem _ hy, hP⟩

theorem exists_mem_left_of_forall₂ {α : Type u} {β : Type v} {P : α → β → Prop} {xs : List α}
    {ys : List β} (h : List.Forall₂ P xs ys) : ∀ y ∈ ys, ∃ x ∈ xs, P x y :=
  exists_mem_right_of_forall₂ h.flip

/-- Whether a traversal succeeds is decided by its steps one by one. -/
theorem Except.exists_mapM_eq_ok_iff {ε α β : Type} {step : α → Except ε β} {xs : List α} :
    (∃ ys, xs.mapM step = .ok ys) ↔ ∀ x ∈ xs, ∃ y, step x = .ok y := by
  simp only [mapM_eq_ok_iff]
  constructor
  · rintro ⟨ys, h⟩ x hx
    obtain ⟨y, -, hy⟩ := exists_mem_right_of_forall₂ h x hx
    exact ⟨y, hy⟩
  · intro h
    induction xs with
    | nil => exact ⟨[], .nil⟩
    | cons x rest ih =>
      obtain ⟨⟨y, hy⟩, hrest⟩ := List.forall_mem_cons.1 h
      obtain ⟨ys, hys⟩ := ih hrest
      exact ⟨y :: ys, .cons hy hys⟩

/-- Lists whose elements look alike one by one look alike. -/
theorem map_eq_map_of_forall₂ {α : Type u} {β : Type v} {γ : Type} {g : α → γ} {g' : β → γ}
    {xs : List α} {ys : List β} (h : List.Forall₂ (fun x y => g x = g' y) xs ys) :
    xs.map g = ys.map g' := by
  induction h with
  | nil => rfl
  | cons hxy _ ih => rw [List.map_cons, List.map_cons, hxy, ih]

/-- Lists whose elements are treated alike one by one are traversed alike. -/
theorem mapM_eq_mapM_of_forall₂ {ε α β γ : Type} {step : α → Except ε γ} {step' : β → Except ε γ}
    {xs : List α} {ys : List β} (h : List.Forall₂ (fun x y => step x = step' y) xs ys) :
    xs.mapM step = ys.mapM step' := by
  induction h with
  | nil => rfl
  | cons hxy _ ih => rw [List.mapM_cons, List.mapM_cons, hxy, ih]

/-! ## Decodes -/

namespace Decoding

variable {α β : Type}

theorem eq_of_outcome {d : Decoding α} {x : Except DecodeError α} (h : d.outcome = x) :
    d = ⟨d.skipped, x⟩ := by
  rw [← h]

/-- Counts add up. -/
theorem bind_eq_ok_iff {d : Decoding α} {next : α → Decoding β} {n : Nat} {b : β} :
    (d >>= next) = ⟨n, .ok b⟩ ↔
      ∃ m k a, d = ⟨m, .ok a⟩ ∧ next a = ⟨k, .ok b⟩ ∧ n = m + k := by
  obtain ⟨m, outcome⟩ := d
  cases outcome with
  | error e =>
    rw [bind_error]
    simp
  | ok a =>
    rw [bind_ok]
    rcases hnext : next a with ⟨k, outcome⟩
    constructor
    · rintro h
      obtain ⟨rfl, rfl⟩ : m + k = n ∧ outcome = .ok b := by simpa using h
      exact ⟨m, k, a, rfl, hnext, rfl⟩
    · rintro ⟨m', k', a', hd, hb, rfl⟩
      obtain ⟨rfl, rfl⟩ : m = m' ∧ a = a' := by simpa using hd
      rw [hnext] at hb
      obtain ⟨rfl, rfl⟩ : k = k' ∧ outcome = .ok b := by simpa using hb
      rfl

theorem mapError_eq_ok_iff {wrap : DecodeError → DecodeError} {d : Decoding α} {n : Nat} {a : α} :
    d.mapError wrap = ⟨n, .ok a⟩ ↔ d = ⟨n, .ok a⟩ := by
  obtain ⟨m, outcome⟩ := d
  cases outcome <;> simp [mapError]

theorem ofExcept_eq_ok_iff {x : Except DecodeError α} {n : Nat} {a : α} :
    ofExcept x = ⟨n, .ok a⟩ ↔ n = 0 ∧ x = .ok a := by
  simp [ofExcept, eq_comm]

theorem pure_eq_ok_iff {a b : α} {n : Nat} :
    (pure a : Decoding α) = ⟨n, .ok b⟩ ↔ n = 0 ∧ a = b := by
  simp [pure_eq, eq_comm]

theorem ofExcept_ok_bind (a : α) (next : α → Decoding β) :
    (ofExcept (.ok a) >>= next) = next a := pure_bind a next

/-- Steps without an account may be lifted one by one. -/
theorem ofExcept_bind (x : Except DecodeError α) (next : α → Except DecodeError β) :
    ofExcept (x >>= next) = ofExcept x >>= fun a => ofExcept (next a) := by
  cases x <;> rfl

/-- A lift passes nothing over. -/
theorem ofExcept_bind_eq_ok_iff {x : Except DecodeError α} {next : α → Decoding β} {n : Nat}
    {b : β} : (ofExcept x >>= next) = ⟨n, .ok b⟩ ↔ ∃ a, x = .ok a ∧ next a = ⟨n, .ok b⟩ := by
  constructor
  · intro h
    obtain ⟨m, k, a, hlift, hnext, rfl⟩ := bind_eq_ok_iff.1 h
    obtain ⟨rfl, hx⟩ := ofExcept_eq_ok_iff.1 hlift
    exact ⟨a, hx, by rw [Nat.zero_add]; exact hnext⟩
  · rintro ⟨a, hx, hnext⟩
    exact bind_eq_ok_iff.2
      ⟨0, n, a, ofExcept_eq_ok_iff.2 ⟨rfl, hx⟩, hnext, (Nat.zero_add n).symm⟩

/-- Elements that are read without passing anything over make a list that is. -/
theorem listFrom_of_forall₂ {read : α → Decoding β} {xs : List α} {ys : List β}
    (h : List.Forall₂ (fun x y => read x = ⟨0, .ok y⟩) xs ys) (i : Nat) :
    listFrom read i xs = ⟨0, .ok ys⟩ := by
  induction h generalizing i with
  | nil => rfl
  | cons hx _ ih =>
    rw [listFrom, hx]
    show (⟨0, .ok _⟩ >>= fun y => listFrom read (i + 1) _ >>= fun ys => pure (y :: ys)) = _
    rw [bind_ok, ih]
    rfl

/-- Every element of a list that is read has been read. -/
theorem forall₂_of_listFrom {read : α → Decoding β} {i n : Nat} {xs : List α} {ys : List β}
    (h : listFrom read i xs = ⟨n, .ok ys⟩) :
    List.Forall₂ (fun x y => ∃ m, read x = ⟨m, .ok y⟩) xs ys := by
  induction xs generalizing i n ys with
  | nil =>
    obtain ⟨-, rfl⟩ := pure_eq_ok_iff.1 h
    exact .nil
  | cons x rest ih =>
    obtain ⟨m, k, y, hy, hrest, -⟩ := bind_eq_ok_iff.1 h
    obtain ⟨k₁, k₂, others, hothers, hys, -⟩ := bind_eq_ok_iff.1 hrest
    obtain ⟨-, rfl⟩ := pure_eq_ok_iff.1 hys
    exact .cons ⟨m, mapError_eq_ok_iff.1 hy⟩ (ih hothers)

end Decoding

/-- Elements that are read make a list that is. -/
theorem Coding.decodeFrom_of_forall₂ {α β : Type} {read : α → Except DecodeError β}
    {xs : List α} {ys : List β} (h : List.Forall₂ (fun x y => read x = .ok y) xs ys) (i : Nat) :
    Coding.decodeFrom read i xs = .ok ys := by
  induction h generalizing i with
  | nil => rfl
  | cons hx _ ih =>
    simp only [Coding.decodeFrom, hx, ih, Except.mapError_ok, bind, Except.bind, pure, Except.pure]

/-! ## Items of a kind -/

/-- What is taken out of a tag has been in it. -/
theorem Cbor.eq_of_expectTag {number : UInt64} {v content : Cbor}
    (h : Cbor.expectTag number v = .ok content) : v = .tag number content := by
  cases v with
  | tag found inner =>
    simp only [Cbor.expectTag] at h
    by_cases hfound : found = number
    · rw [if_pos hfound] at h
      rw [hfound, Except.ok.inj h]
    · rw [if_neg hfound] at h
      cases h
  | _ => cases h

theorem Json.eq_of_expectString {v : Json} {s : String} (h : Json.expectString v = .ok s) :
    v = .string s := by
  cases v with
  | string found => rw [Except.ok.inj h]
  | _ => cases h

theorem Json.eq_of_expectObject {v : Json} {members : Json.Members}
    (h : Json.expectObject v = .ok members) : v = .object members := by
  cases v with
  | object found => rw [Except.ok.inj h]
  | _ => cases h

/-- A member that is taken out of an object was in it, and so were those that are left. -/
theorem Json.Members.mem_of_remove? {name : String} {members rest : Json.Members} {v : Json}
    (h : members.remove? name = some (v, rest)) : (name, v) ∈ members ∧ rest ⊆ members := by
  induction members generalizing rest with
  | nil => cases h
  | cons m others ih =>
    obtain ⟨n, w⟩ := m
    unfold remove? at h
    split at h
    next hname =>
      subst hname
      split at h
      next =>
        obtain ⟨rfl, rfl⟩ := Prod.mk.inj (Option.some.inj h)
        exact ⟨by simp, List.nil_subset _⟩
      next last hlast =>
        -- The last member moves into the place of the one that is taken out.
        obtain ⟨rfl, rfl⟩ := Prod.mk.inj (Option.some.inj h)
        refine ⟨by simp, List.cons_subset.2 ⟨?_, ?_⟩⟩
        · exact List.mem_cons_of_mem _ (List.mem_of_getLast? hlast)
        · exact List.subset_cons_of_subset _ (List.dropLast_subset _)
    next =>
      obtain ⟨⟨u, left⟩, hothers, hpair⟩ := Option.map_eq_some_iff.1 h
      obtain ⟨rfl, rfl⟩ := Prod.mk.inj hpair
      obtain ⟨hmem, hsubset⟩ := ih hothers
      exact ⟨List.mem_cons_of_mem _ hmem, List.cons_subset_cons _ hsubset⟩

/-- The value of an envelope is one of its members. -/
theorem Json.Envelope.mem_of_ofJson {v : Json} {e : Json.Envelope}
    (h : Json.Envelope.ofJson v = .ok e) :
    ∃ members, v = .object members ∧ ("value", e.value) ∈ members := by
  obtain ⟨members, hmembers, h⟩ := Except.bind_eq_ok_iff.1 h
  refine ⟨members, Json.eq_of_expectObject hmembers, ?_⟩
  split at h
  · cases h
  next tag others htag =>
    obtain ⟨typeTag, -, h⟩ := Except.bind_eq_ok_iff.1 h
    split at h
    · cases h
    next value hvalue =>
      obtain rfl := Except.ok.inj h
      exact (Json.Members.mem_of_remove? htag).2 (Json.Members.mem_of_remove? hvalue).1
    · cases h

/-- An envelope is larger than its value. -/
theorem Json.Envelope.sizeOf_value_lt {v : Json} {e : Json.Envelope}
    (h : Json.Envelope.ofJson v = .ok e) : sizeOf e.value < sizeOf v := by
  obtain ⟨members, rfl, hmem⟩ := Json.Envelope.mem_of_ofJson h
  have hmember := List.sizeOf_lt_of_mem hmem
  simp only [Json.object.sizeOf_spec, Prod.mk.sizeOf_spec] at hmember ⊢
  omega

end Rim
