import Rim.Proofs.Schema.Record

/-!
# What holds of a record while it is read

* `Record.Stored`: what reading one entry does to a record: the content of a fixed field or the
  value of a declared extension is stored, or the entry is passed over.
* `Record.decodeEntry_cases`: a read of an entry that succeeds has done one of these.
* `Record.KeptByEntries`: what every entry keeps, of the entries gone through and of the record,
  holds of the record that has been read.
* `Record.held`: the place of a field holds what has been read of the entry with its key.
-/

namespace Rim.Record

variable {R : Type} [Record R] {f : Form} {sc : Scope}

/-- What reading the value of a key makes of a record, and the unknown fields passed over. -/
inductive Stored (f : Form) (sc : Scope) (key : f.Key) (v : f.Value) (r : R) : Nat → R → Prop where
  | field {x : Field R} {b : x.Content} {n : Nat} : field? R f key = some x →
      x.wire.decode f sc v = ⟨n, .ok b⟩ → Stored f sc key v r n (x.set b r)
  | extension {shape : ExtensionShape} {z : ExtensionField} {value : ExtensionValue} :
      field? R f key = none → shape? R sc.bindings = some shape → shape.byWire? f key = some z →
      z.decode f v = .ok value →
      Stored f sc key v r 0 (mapExtensions (·.setDecoded z.key value) r)
  | unknown {n : Nat} : field? R f key = none →
      (shape? R sc.bindings).bind (·.byWire? f key) = none →
      sc.skipUnknown (name R) (f.keyText key) = ⟨n, .ok ()⟩ → Stored f sc key v r n r

theorem decodeEntry_cases {key : f.Key} {v : f.Value} {r y : R} {n : Nat}
    (h : decodeEntry f sc key v r = ⟨n, .ok y⟩) : Stored f sc key v r n y := by
  cases hx : field? R f key with
  | some x =>
    obtain ⟨b, hb, rfl⟩ := decodeEntry_field_cases hx h
    exact .field hx hb
  | none =>
    simp only [decodeEntry, hx] at h
    split at h
    next z hz =>
      obtain ⟨shape, hshape, hwire⟩ := Option.bind_eq_some_iff.1 hz
      obtain ⟨value, hvalue, hy⟩ := Decoding.ofExcept_bind_eq_ok_iff.1 h
      obtain ⟨rfl, rfl⟩ := Decoding.pure_eq_ok_iff.1 hy
      exact .extension hx hshape hwire hvalue
    next hz =>
      obtain ⟨n₁, n₂, u, hskip, hy, rfl⟩ := Decoding.bind_eq_ok_iff.1 h
      obtain ⟨rfl, rfl⟩ := Decoding.pure_eq_ok_iff.1 hy
      exact .unknown hx hz hskip

/-- What reading one more entry keeps of the entries that have been gone through and of the record
that has been made of them. The new entry has the key of none of them. -/
def KeptByEntries (f : Form) (sc : Scope) (Inv : List (f.RawKey × f.Value) → R → Prop) : Prop :=
  ∀ done raw v key r n y, Inv done r → f.readKey raw = .ok key →
    (∀ e ∈ done, f.readKey e.1 ≠ .ok key) → Stored f sc key v r n y → Inv (done ++ [(raw, v)]) y

theorem KeptByEntries.rest {Inv : List (f.RawKey × f.Value) → R → Prop}
    (hkept : KeptByEntries f sc Inv) {done rest : List (f.RawKey × f.Value)} {seen : List f.Key}
    {r y : R} {n : Nat} (h : decodeEntries f sc seen rest r = ⟨n, .ok y⟩)
    (hseen : ∀ e ∈ done, ∃ key ∈ seen, f.readKey e.1 = .ok key) (hr : Inv done r) :
    Inv (done ++ rest) y := by
  induction rest generalizing done seen r n with
  | nil =>
    obtain ⟨-, rfl⟩ := Decoding.pure_eq_ok_iff.1 h
    rwa [List.append_nil]
  | cons e rest ih =>
    obtain ⟨raw, v⟩ := e
    obtain ⟨key, n₁, n₂, r₁, hkey, hfresh, hentry, hrest, -⟩ := decodeEntries_cases h
    have hnew : ∀ e ∈ done, f.readKey e.1 ≠ .ok key := by
      intro e he heq
      obtain ⟨key', hkey', hread⟩ := hseen e he
      obtain rfl : key' = key := Except.ok.inj (hread.symm.trans heq)
      exact hfresh hkey'
    have hdone := hkept done raw v key r n₁ r₁ hr hkey hnew (decodeEntry_cases hentry)
    rw [List.append_cons]
    refine ih hrest ?_ hdone
    intro e he
    rcases List.mem_append.1 he with he | he
    · obtain ⟨key', hkey', hread⟩ := hseen e he
      exact ⟨key', List.mem_cons_of_mem _ hkey', hread⟩
    · rw [List.mem_singleton.1 he]
      exact ⟨key, by simp, hkey⟩

/-- What every entry keeps holds of the record that has been read. -/
theorem KeptByEntries.holds {Inv : List (f.RawKey × f.Value) → R → Prop}
    (hkept : KeptByEntries f sc Inv) {entries : List (f.RawKey × f.Value)} {r y : R} {n : Nat}
    (h : decodeEntries f sc [] entries r = ⟨n, .ok y⟩) (hr : Inv [] r) : Inv entries y :=
  hkept.rest h (fun _ he => absurd he List.not_mem_nil) hr

/-- Every entry of a record that has been read was stored or passed over. -/
theorem stored_of_mem {entries : List (f.RawKey × f.Value)} {r y : R} {n : Nat}
    (h : decodeEntries f sc [] entries r = ⟨n, .ok y⟩) {raw : f.RawKey} {v : f.Value}
    (hmem : (raw, v) ∈ entries) :
    ∃ key r₁ n₁ y₁, f.readKey raw = .ok key ∧ Stored (R := R) f sc key v r₁ n₁ y₁ := by
  have hkept : KeptByEntries (R := R) f sc fun done _ => ∀ e ∈ done, ∃ key r₁ n₁ y₁,
      f.readKey e.1 = .ok key ∧ Stored (R := R) f sc key e.2 r₁ n₁ y₁ := by
    intro done raw v key r n y hdone hkey _ hstored e he
    rcases List.mem_append.1 he with he | he
    · exact hdone e he
    · rw [List.mem_singleton.1 he]
      exact ⟨key, r, n, y, hkey, hstored⟩
  exact hkept.holds h (fun _ he => absurd he List.not_mem_nil) (raw, v) hmem

/-! ## Places of fields -/

/-- A place in a record that one field writes to, and nothing else. -/
structure Place (x : Field R) {γ : Type} (g : R → γ) (put : x.Content → γ) : Prop where
  stored : ∀ b r, g (x.set b r) = put b
  others : ∀ z ∈ fields (R := R), z.key ≠ x.key → ∀ b r, g (z.set b r) = g r
  extensions : ∀ change r, g (mapExtensions change r) = g r

/-- What stands in the place of a field: what has been read of the one entry with its key, or what
stood there at first if there is no such entry. -/
inductive Held (f : Form) (sc : Scope) (x : Field R) {γ : Type} (put : x.Content → γ) (initial : γ)
    (entries : List (f.RawKey × f.Value)) (c : γ) : Prop where
  | read {raw : f.RawKey} {v : f.Value} {n : Nat} {b : x.Content} : (raw, v) ∈ entries →
      f.readKey raw = .ok (f.keyOf x.key) →
      (∀ e ∈ entries, f.readKey e.1 = .ok (f.keyOf x.key) → e = (raw, v)) →
      x.wire.decode f sc v = ⟨n, .ok b⟩ → c = put b → Held f sc x put initial entries c
  | absent : (∀ e ∈ entries, f.readKey e.1 ≠ .ok (f.keyOf x.key)) → c = initial →
      Held f sc x put initial entries c

omit [Record R] in
/-- An entry with another key does not change what is held. -/
theorem Held.skip {x : Field R} {γ : Type} {put : x.Content → γ} {initial c c' : γ}
    {done : List (f.RawKey × f.Value)} (h : Held f sc x put initial done c) {raw : f.RawKey}
    {v : f.Value} (hraw : f.readKey raw ≠ .ok (f.keyOf x.key)) (hc : c' = c) :
    Held f sc x put initial (done ++ [(raw, v)]) c' := by
  subst hc
  cases h with
  | read hmem hkey honly hread hput =>
    refine .read (List.mem_append_left _ hmem) hkey (fun e he hekey => ?_) hread hput
    rcases List.mem_append.1 he with he | he
    · exact honly e he hekey
    · rw [List.mem_singleton.1 he] at hekey
      exact absurd hekey hraw
  | absent hnone hc =>
    refine .absent (fun e he => ?_) hc
    rcases List.mem_append.1 he with he | he
    · exact hnone e he
    · rw [List.mem_singleton.1 he]
      exact hraw

/-- Whatever has been read, a place of a field holds what its entry says. -/
theorem held [LawfulRecord R] {x : Field R} (hx : x ∈ fields) {γ : Type} {g : R → γ}
    {put : x.Content → γ} (hplace : Place x g put) {entries : List (f.RawKey × f.Value)} {r y : R}
    {n : Nat} (h : decodeEntries f sc [] entries r = ⟨n, .ok y⟩) :
    Held f sc x put (g r) entries (g y) := by
  have hkept : KeptByEntries f sc fun done y => Held f sc x put (g r) done (g y) := by
    intro done raw v key y n z hy hkey hnew hstored
    have hfield : field? R f (f.keyOf x.key) = some x := field?_of_mem hx
    by_cases hxkey : key = f.keyOf x.key
    · -- The entry is the first with the key of the field.
      subst hxkey
      cases hstored with
      | @field w b _ hw hb =>
        obtain rfl : x = w := Option.some.inj (hfield.symm.trans hw)
        refine .read (by simp) hkey (fun e he hekey => ?_) hb (hplace.stored b y)
        rcases List.mem_append.1 he with he | he
        · exact absurd hekey (hnew e he)
        · exact List.mem_singleton.1 he
      | extension hnone =>
        rw [hfield] at hnone
        cases hnone
      | unknown hnone =>
        rw [hfield] at hnone
        cases hnone
    · have hraw : f.readKey raw ≠ .ok (f.keyOf x.key) := by
        intro heq
        exact hxkey (Except.ok.inj (hkey.symm.trans heq))
      refine hy.skip hraw ?_
      cases hstored with
      | @field w b _ hw hb =>
        refine hplace.others w (List.mem_of_find?_eq_some hw) (fun hwx => ?_) b y
        have hwkey := List.find?_some hw
        rw [hwx] at hwkey
        exact hxkey (of_decide_eq_true hwkey).symm
      | extension => exact hplace.extensions _ y
      | unknown => rfl
  exact hkept.holds h (.absent (fun e he => absurd he List.not_mem_nil) rfl)

end Rim.Record
