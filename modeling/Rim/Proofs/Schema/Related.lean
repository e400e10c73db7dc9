import Rim.Proofs.Schema.Record

/-!
# Reading and writing in two scopes

Two scopes with the same shapes in force lead a record through the same steps. What the steps have
in common depends on the type choices and on what becomes of unknown fields.

* `Decoding.Comparison`: a relation between two decodes that the steps of a decode keep.
* `Scope.Related`: two scopes whose type choices and unknown fields compare.
* `Wire.Related`: contents that are read compare, and what can be written in the first scope is
  written alike in the second.
* `Record.wire_related`, `Record.decode_related`: records compare if their fields do.
-/

namespace Rim

/-! ## Two decodes -/

namespace Decoding

/-- A relation between two decodes that every step of a decode keeps. -/
structure Comparison where
  Holds : {α : Type} → Decoding α → Decoding α → Prop
  /-- A step that does not look at the scope compares with itself. -/
  ofExcept : ∀ {α : Type} (x : Except DecodeError α), Holds (ofExcept x) (ofExcept x)
  bind : ∀ {α β : Type} {d d' : Decoding α} {next next' : α → Decoding β}, Holds d d' →
    (∀ a, Holds (next a) (next' a)) → Holds (d >>= next) (d' >>= next')
  mapError : ∀ {α : Type} {d d' : Decoding α} (wrap : DecodeError → DecodeError),
    (∀ e, (wrap e).root = e.root) → Holds d d' → Holds (d.mapError wrap) (d'.mapError wrap)

namespace Comparison

variable (ρ : Comparison) {α β : Type}

theorem pure (a : α) : ρ.Holds (pure a) (pure a) := ρ.ofExcept (.ok a)

theorem map {d d' : Decoding α} (h : ρ.Holds d d') (g : α → β) :
    ρ.Holds (d >>= fun a => Pure.pure (g a)) (d' >>= fun a => Pure.pure (g a)) :=
  ρ.bind h fun a => ρ.pure (g a)

/-- A step that does not look at the scope may come first. -/
theorem ofExcept_bind (x : Except DecodeError α) {next next' : α → Decoding β}
    (h : ∀ a, x = .ok a → ρ.Holds (next a) (next' a)) :
    ρ.Holds (Decoding.ofExcept x >>= next) (Decoding.ofExcept x >>= next') := by
  cases x with
  | error e => exact ρ.ofExcept (.error e)
  | ok a =>
    rw [ofExcept_ok_bind, ofExcept_ok_bind]
    exact h a rfl

/-- Steps without an account compare one by one. -/
theorem except_bind {x x' : Except DecodeError α} {next next' : α → Except DecodeError β}
    (hx : ρ.Holds (.ofExcept x) (.ofExcept x'))
    (hnext : ∀ a, ρ.Holds (.ofExcept (next a)) (.ofExcept (next' a))) :
    ρ.Holds (.ofExcept (x >>= next)) (.ofExcept (x' >>= next')) := by
  rw [Decoding.ofExcept_bind, Decoding.ofExcept_bind]
  exact ρ.bind hx hnext

/-- Lists compare element by element. -/
theorem listFrom {ι : Type} {read read' : ι → Decoding α} (h : ∀ v, ρ.Holds (read v) (read' v))
    (i : Nat) (vs : List ι) : ρ.Holds (Decoding.listFrom read i vs) (listFrom read' i vs) := by
  induction vs generalizing i with
  | nil => exact ρ.pure []
  | cons v rest ih =>
    refine ρ.bind (ρ.mapError (.index i) (fun _ => rfl) (h v)) fun a => ?_
    exact ρ.map (ih (i + 1)) (a :: ·)

/-- Decodes compare if they are equal. -/
def equal : Comparison where
  Holds d d' := d' = d
  ofExcept _ := rfl
  bind := by
    rintro α β d _ next next' rfl hnext
    rw [show next' = next from funext hnext]
  mapError := by
    rintro α d _ wrap _ rfl
    rfl

/-- Decodes compare if they are equal, or if the first fails for a reason that excuses the second
from being so. -/
def exceptFor (excused : DecodeError → Prop) : Comparison where
  Holds d d' := (∃ e, d.outcome = .error e ∧ excused e.root) ∨ d' = d
  ofExcept _ := .inr rfl
  bind := by
    rintro α β ⟨n, outcome⟩ d' next next' hd hnext
    rcases hd with ⟨e, rfl, he⟩ | rfl
    · exact .inl ⟨e, rfl, he⟩
    · cases outcome with
      | error e => exact .inr rfl
      | ok a =>
        rcases hnext a with ⟨e, hout, he⟩ | hout
        · exact .inl ⟨e, hout, he⟩
        · exact .inr (by rw [bind_ok, bind_ok, hout])
  mapError := by
    rintro α ⟨n, outcome⟩ d' wrap hwrap hd
    rcases hd with ⟨e, rfl, he⟩ | rfl
    · exact .inl ⟨wrap e, rfl, by rwa [hwrap]⟩
    · exact .inr rfl

end Comparison

end Decoding

/-! ## Two scopes -/

open Decoding (Comparison)

/-- The second scope has the shapes of the first in force, its type choices and unknown fields
compare with those of the first, and it writes the type choices that the first can write. -/
structure Scope.Related (ρ : Comparison) (sc sc' : Scope) : Prop where
  bindings : sc'.bindings = sc.bindings
  reads : ∀ family f v, ρ.Holds (.ofExcept (Choice.decode sc.types family f v))
    (.ofExcept (Choice.decode sc'.types family f v))
  writes : ∀ family f value v, Choice.encode sc.types family f value = .ok v →
    Choice.encode sc'.types family f value = .ok v
  skips : ∀ owner key, ρ.Holds (sc.skipUnknown owner key) (sc'.skipUnknown owner key)

namespace Scope.Related

variable {ρ : Comparison} {sc sc' : Scope}

/-- Scopes stay related when a record names a profile, if both know the same of it. -/
theorem scopedTo (h : sc.Related ρ sc') {id : Option ProfileId}
    (hprofile : id.bind sc'.profiles = id.bind sc.profiles) :
    (sc.scopedTo id).Related ρ (sc'.scopedTo id) := by
  unfold Scope.scopedTo
  rw [hprofile]
  split
  next shapes _ => exact ⟨rfl, h.reads, h.writes, h.skips⟩
  next => exact h

/-- Scopes that differ only in the profiles they know. -/
theorem of_profiles (sc : Scope) (profiles : ProfileId → Option ExtensionMap) :
    sc.Related .equal { sc with profiles } :=
  ⟨rfl, fun _ _ _ => rfl, fun _ _ _ _ h => h, fun _ _ => rfl⟩

end Scope.Related

/-! ## Wires -/

namespace Wire

variable {ρ : Comparison} {f : Form} {sc sc' : Scope} {α : Type}

/-- Contents that are read in two scopes compare, and a content that can be written in the first
scope is written alike in the second. -/
structure Related (w : Wire α) (ρ : Comparison) (f : Form) (sc sc' : Scope) : Prop where
  reads : ∀ v, ρ.Holds (w.decode f sc v) (w.decode f sc' v)
  writes : ∀ a v, w.encode f sc.types a = .ok v → w.encode f sc'.types a = .ok v

theorem related_coding (c : Coding α) : c.toWire.Related ρ f sc sc' :=
  ⟨fun _ => ρ.ofExcept _, fun _ _ h => h⟩

theorem related_choice (h : sc.Related ρ sc') (family : Family) :
    (choice family).Related ρ f sc sc' :=
  ⟨h.reads family f, h.writes family f⟩

theorem mapM_of_related {w : Wire α} (h : w.Related ρ f sc sc') {as : List α}
    {items : List f.Value} (hitems : as.mapM (w.encode f sc.types) = .ok items) :
    as.mapM (w.encode f sc'.types) = .ok items := by
  rw [Except.mapM_eq_ok_iff] at hitems ⊢
  exact hitems.imp fun _ _ => h.writes _ _

theorem related_list {w : Wire α} (h : w.Related ρ f sc sc') : (list w).Related ρ f sc sc' := by
  constructor
  · intro v
    exact ρ.ofExcept_bind _ fun items _ => ρ.listFrom h.reads 0 items
  · intro as v hv
    obtain ⟨items, hitems, hv⟩ := Except.bind_eq_ok_iff.1 hv
    exact Except.bind_eq_ok_iff.2 ⟨items, mapM_of_related h hitems, hv⟩

end Wire

/-! ## Records -/

namespace Record

variable {ρ : Comparison} {f : Form} {sc sc' : Scope} {R : Type} [Record R]

/-- What every field of a kind of record does in two scopes. -/
def FieldsRelated (R : Type) [Record R] (ρ : Comparison) (f : Form) (sc sc' : Scope) : Prop :=
  (fields (R := R)).Forall fun x => x.wire.Related ρ f sc sc'

/-- A record is read alike in two scopes that its profile makes one. -/
theorem decode_congr {v : f.Value}
    (h : ∀ entries, f.members v = .ok entries →
      sc'.scopedTo (profileHint R f entries) = sc.scopedTo (profileHint R f entries)) :
    (decode f sc' v : Decoding R) = decode f sc v := by
  refine Comparison.equal.ofExcept_bind (f.members v) fun entries hentries => ?_
  show decodeEntries f (sc'.scopedTo _) [] entries _ = decodeEntries f (sc.scopedTo _) [] entries _
  rw [h entries hentries]

theorem decodeEntry_related (hsc : sc.Related ρ sc') (hfields : FieldsRelated R ρ f sc sc')
    (key : f.Key) (v : f.Value) (r : R) :
    ρ.Holds (decodeEntry f sc key v r) (decodeEntry f sc' key v r) := by
  unfold decodeEntry
  rw [hsc.bindings]
  split
  next x hx =>
    have hwire := List.forall_iff_forall_mem.1 hfields x (List.mem_of_find?_eq_some hx)
    have hstore := ρ.mapError (.field x.key.name) (fun _ => rfl) (ρ.map (hwire.reads v) (x.set ·))
    exact ρ.map hstore (· r)
  next =>
    split
    next x _ => exact ρ.ofExcept_bind _ fun value _ => ρ.pure _
    next => exact ρ.map (hsc.skips _ _) fun _ => r

theorem decodeEntries_related (hsc : sc.Related ρ sc') (hfields : FieldsRelated R ρ f sc sc')
    (entries : List (f.RawKey × f.Value)) (seen : List f.Key) (r : R) :
    ρ.Holds (decodeEntries f sc seen entries r) (decodeEntries f sc' seen entries r) := by
  induction entries generalizing seen r with
  | nil => exact ρ.pure r
  | cons e rest ih =>
    obtain ⟨raw, v⟩ := e
    unfold decodeEntries
    refine ρ.ofExcept_bind _ fun key _ => ?_
    split
    · exact ρ.ofExcept (.error _)
    · exact ρ.bind (decodeEntry_related hsc hfields key v r) fun y => ih (key :: seen) y

/-- Records compare if their fields do, in the scopes of the profile they name. -/
theorem decode_related {v : f.Value}
    (h : ∀ entries, f.members v = .ok entries →
      (sc.scopedTo (profileHint R f entries)).Related ρ (sc'.scopedTo (profileHint R f entries)) ∧
      FieldsRelated R ρ f (sc.scopedTo (profileHint R f entries))
        (sc'.scopedTo (profileHint R f entries))) :
    ρ.Holds (decode f sc v : Decoding R) (decode f sc' v) := by
  refine ρ.ofExcept_bind _ fun entries hentries => ?_
  obtain ⟨hsc, hfields⟩ := h entries hentries
  dsimp only
  rw [hsc.bindings]
  exact decodeEntries_related hsc hfields entries [] _

omit [Record R] in
theorem encodeFields_related {r : R} {xs : List (Field R)}
    (hxs : ∀ x ∈ xs, x.wire.Related ρ f sc sc') {entries : List (FieldKey × f.Value)}
    (h : encodeFields f sc.types r xs = .ok entries) :
    encodeFields f sc'.types r xs = .ok entries := by
  induction xs generalizing entries with
  | nil => exact h
  | cons x rest ih =>
    have hrest := fun y hy => hxs y (List.mem_cons_of_mem _ hy)
    unfold encodeFields Field.encode
    rcases encodeFields_cons h with ⟨hnone, hothers⟩ | ⟨a, v, others, hget, hv, hothers, rfl⟩
    · rw [hnone]
      exact ih hrest hothers
    · rw [hget]
      show (x.wire.encode f sc'.types a >>= fun v => _) = _
      rw [(hxs x (by simp)).writes a v hv, ih hrest hothers]
      rfl

theorem encode_related (hfields : FieldsRelated R ρ f sc sc') {r : R} {v : f.Value}
    (h : encode f sc.types r = .ok v) : encode f sc'.types r = .ok v := by
  obtain ⟨fixed, hfixed, hrest⟩ := Except.bind_eq_ok_iff.1 h
  exact Except.bind_eq_ok_iff.2
    ⟨fixed, encodeFields_related (List.forall_iff_forall_mem.1 hfields) hfixed, hrest⟩

/-- Records inside other records compare if their fields do. -/
theorem wire_related (hprofile : profileField (R := R) = none) (hsc : sc.Related ρ sc')
    (hfields : FieldsRelated R ρ f sc sc') : (wire R).Related ρ f sc sc' := by
  constructor
  · intro v
    refine decode_related fun entries _ => ?_
    have hhint : profileHint R f entries = none := by simp [profileHint, hprofile]
    rw [hhint]
    exact ⟨hsc, hfields⟩
  · intro r v h
    exact encode_related hfields h

end Record

end Rim
