import Rim.Proofs.Schema.Record

/-!
# Reading without shapes

A record is read twice: in a scope with shapes, and in the same scope without any. What the first
read takes for an extension is an unknown field to the second.

* `Decoding.Sheds`: what the second read does next to the first.
* `Wire.Sheds`: the second read gives the content without its extensions.
* `Record.Strips`: the extensions of a kind of record can be counted and stripped field by field.
* `Record.decode_sheds`: records are read without shapes as the records without their extensions.
-/

namespace Rim

/-- The scope without any shape in force. -/
def Scope.bare (sc : Scope) : Scope := { sc with bindings := .empty }

/-! ## Two decodes -/

namespace Decoding

variable {α β : Type}

/-- Next to a decode that gave a value and passed `n` fields over, where `k` fields were taken for
extensions: it gives the same and passes `k` fields more over, unless it is strict and has to refuse
the first of them. -/
inductive Sheds (strict : Bool) (n k : Nat) (a : α) : Decoding α → Prop where
  | passed : (strict = true → k = 0) → Sheds strict n k a ⟨n + k, .ok a⟩
  | refused {m : Nat} {e : DecodeError} {owner key : String} : strict = true → k ≠ 0 →
    e.root = .unknownField owner key → Sheds strict n k a ⟨m, .error e⟩

variable {strict : Bool} {n k m l : Nat} {a : α} {b : β}

/-- What a decode next to one that succeeds does, in either mode. -/
theorem Sheds.spec {d : Decoding α} (h : Sheds strict n k a d) :
    (strict = false → d = ⟨n + k, .ok a⟩) ∧
    (strict = true → k = 0 → d = ⟨n, .ok a⟩) ∧
    (strict = true → k ≠ 0 →
      ∃ e owner key, d.outcome = .error e ∧ e.root = .unknownField owner key) := by
  cases h with
  | passed hk =>
    refine ⟨fun _ => rfl, fun _ hzero => ?_, fun hs hne => absurd (hk hs) hne⟩
    rw [hzero, Nat.add_zero]
  | refused hs hk hroot =>
    refine ⟨fun hlenient => ?_, fun _ hzero => absurd hzero hk, fun _ _ => ⟨_, _, _, rfl, hroot⟩⟩
    rw [hs] at hlenient
    cases hlenient

/-- Where nothing was taken for an extension, the two decodes do the same. -/
theorem sheds_self : Sheds strict n 0 a ⟨n, .ok a⟩ := .passed fun _ => rfl

theorem Sheds.bind {d : Decoding α} (hd : Sheds strict n k a d) (next : α → Decoding β)
    (hnext : Sheds strict m l b (next a)) : Sheds strict (n + m) (k + l) b (d >>= next) := by
  -- The first refusal, of the one decode or of the other, is the outcome of both.
  cases hd with
  | passed hk =>
    rw [bind_ok]
    generalize next a = d at hnext
    cases hnext with
    | passed hl =>
      have hsum : n + k + (m + l) = n + m + (k + l) := by omega
      show Sheds strict (n + m) (k + l) b ⟨n + k + (m + l), .ok b⟩
      rw [hsum]
      exact .passed fun hs => by rw [hk hs, hl hs]
    | refused hs hl hroot => exact .refused hs (by omega) hroot
  | refused hs hk hroot =>
    rw [bind_error]
    exact .refused hs (by omega) hroot

theorem Sheds.map {d : Decoding α} (hd : Sheds strict n k a d) (g : α → β) :
    Sheds strict n k (g a) (d >>= fun a => pure (g a)) :=
  hd.bind (fun a => pure (g a)) (sheds_self : Sheds strict 0 0 (g a) ⟨0, .ok (g a)⟩)

theorem Sheds.mapError {d : Decoding α} (hd : Sheds strict n k a d)
    {wrap : DecodeError → DecodeError} (hwrap : ∀ e, (wrap e).root = e.root) :
    Sheds strict n k a (d.mapError wrap) := by
  cases hd with
  | passed hk => exact .passed hk
  | refused hs hk hroot => exact .refused hs hk ((hwrap _).trans hroot)

/-- A lift that succeeds for the first decode does so for the second. -/
theorem Sheds.ofExcept_bind {x : Except DecodeError α} (hx : x = .ok a) {next : α → Decoding β}
    (hnext : Sheds strict m l b (next a)) :
    Sheds strict m l b (Decoding.ofExcept x >>= next) := by
  subst hx
  have hself : Sheds strict 0 0 a ⟨0, .ok a⟩ := sheds_self
  have h := hself.bind next hnext
  rwa [Nat.zero_add, Nat.zero_add] at h

/-- Lists are read element by element. -/
theorem sheds_listFrom {ι : Type} {read bare : ι → Decoding α} {count : α → Nat} {strip : α → α}
    (h : ∀ ⦃v n a⦄, read v = ⟨n, .ok a⟩ → Sheds strict n (count a) (strip a) (bare v))
    {vs : List ι} {i n : Nat} {as : List α} (has : listFrom read i vs = ⟨n, .ok as⟩) :
    Sheds strict n (as.map count).sum (as.map strip) (listFrom bare i vs) := by
  induction vs generalizing i n as with
  | nil =>
    obtain ⟨rfl, rfl⟩ := pure_eq_ok_iff.1 has
    exact sheds_self
  | cons v rest ih =>
    obtain ⟨n₁, n₂, a, hfirst, hnext, rfl⟩ := bind_eq_ok_iff.1 has
    obtain ⟨n₂, n₃, others, hrest, hlast, rfl⟩ := bind_eq_ok_iff.1 hnext
    obtain ⟨rfl, rfl⟩ := pure_eq_ok_iff.1 hlast
    have hhead : Sheds strict n₁ (count a) (strip a) ((bare v).mapError (.index i)) :=
      (h (mapError_eq_ok_iff.1 hfirst)).mapError fun _ => rfl
    exact hhead.bind _ ((ih hrest).map (strip a :: ·))

end Decoding

/-! ## Contents -/

namespace Wire

variable {α : Type} {f : Form} {sc : Scope}

/-- Without shapes the wire gives the content without its extensions, and passes over as many more
fields as there were extension entries in the content. -/
def Sheds (w : Wire α) (f : Form) (sc : Scope) (count : α → Nat) (strip : α → α) : Prop :=
  ∀ ⦃v n a⦄, w.decode f sc v = ⟨n, .ok a⟩ →
    (w.decode f sc.bare v).Sheds sc.strict n (count a) (strip a)

/-- A wire that does not look at the shapes. -/
theorem sheds_of_eq {w : Wire α} (h : w.decode f sc.bare = w.decode f sc) :
    w.Sheds f sc (fun _ => 0) id := by
  intro v n a ha
  rw [h, ha]
  exact Decoding.sheds_self

theorem sheds_list {w : Wire α} {count : α → Nat} {strip : α → α} (h : w.Sheds f sc count strip) :
    (list w).Sheds f sc (fun as => (as.map count).sum) (List.map strip) := by
  intro v n as has
  obtain ⟨items, hitems, hread⟩ := Decoding.ofExcept_bind_eq_ok_iff.1 has
  exact .ofExcept_bind hitems (Decoding.sheds_listFrom h hread)

end Wire

/-! ## Fields -/

variable {R : Type}

/-- Where the field was absent, storing a content in it adds the extension entries of the content to
the record. -/
def Field.Sheds (x : Field R) (f : Form) (sc : Scope) (count : R → Nat) (strip : R → R) : Prop :=
  ∃ (contents : x.Content → Nat) (stripped : x.Content → x.Content),
    x.wire.Sheds f sc contents stripped ∧
    (∀ a r, strip (x.set a r) = x.set (stripped a) (strip r)) ∧
    ∀ a r, x.get r = none → count (x.set a r) = count r + contents a

namespace Record

variable [Record R] {f : Form} {sc : Scope}

/-- The extension entries of a kind of record can be counted and stripped: field by field, and in
the record's own set. -/
structure Strips (R : Type) [Record R] (f : Form) (sc : Scope) (count : R → Nat) (strip : R → R) :
    Prop where
  count_empty : count empty = 0
  strip_empty : strip empty = empty
  count_host : ∀ h, host (R := R) = some h → ∀ s r,
    count (h.set s r) + (h.get r).entries.length = count r + s.entries.length
  strip_host : ∀ h, host (R := R) = some h → ∀ s r, strip (h.set s r) = strip r
  fields : ∀ x ∈ fields (R := R), x.Sheds f sc count strip

/-- Of what has not been seen nothing has been read. -/
structure Fresh (f : Form) (m : ExtensionMap) (seen : List f.Key) (r : R) : Prop where
  field : ∀ x ∈ fields (R := R), f.keyOf x.key ∉ seen → x.get r = none
  own : ∀ h, host (R := R) = some h → ∀ shape, shape? R m = some shape → ∀ z ∈ shape.fields,
    f.keyOf z.wire ∉ seen → Keyed.find? z.key (h.get r).entries = none

theorem Fresh.mono {m : ExtensionMap} {seen : List f.Key} {r : R} (h : Fresh f m seen r)
    (key : f.Key) : Fresh f m (key :: seen) r :=
  ⟨fun x hx hkey => h.field x hx fun hmem => hkey (List.mem_cons_of_mem _ hmem),
    fun host hhost shape hshape z hz hkey =>
      h.own host hhost shape hshape z hz fun hmem => hkey (List.mem_cons_of_mem _ hmem)⟩

/-- A content that is stored leaves fresh what has still not been seen. -/
theorem Fresh.store [LawfulRecord R] {m : ExtensionMap} {seen : List f.Key} {r : R}
    (h : Fresh f m seen r) {x : Field R} (hx : x ∈ fields) (a : x.Content) :
    Fresh f m (f.keyOf x.key :: seen) (x.set a r) := by
  constructor
  · intro y hy hkey
    have hne : y ≠ x := by
      rintro rfl
      exact hkey List.mem_cons_self
    rw [(apart_of_ne hy hx hne).get_set]
    exact h.field y hy fun hmem => hkey (List.mem_cons_of_mem _ hmem)
  · intro host hhost shape hshape z hz hkey
    rw [((LawfulRecord.host host hhost).apart x hx).get_set]
    exact h.own host hhost shape hshape z hz fun hmem => hkey (List.mem_cons_of_mem _ hmem)

/-- So does an extension value. -/
theorem Fresh.extend [LawfulRecord R] {m : ExtensionMap} {seen : List f.Key} {r : R}
    (h : Fresh f m seen r) {host : ExtensionHost R} (hhost : Record.host (R := R) = some host)
    {shape : ExtensionShape} (hshape : shape? R m = some shape) (hdistinct : shape.Distinct)
    {z : ExtensionField} (hz : z ∈ shape.fields) (value : ExtensionValue) :
    Fresh f m (f.keyOf z.wire :: seen) (host.set ((host.get r).setDecoded z.key value) r) := by
  have hlaw := LawfulRecord.host host hhost
  constructor
  · intro y hy hkey
    rw [(hlaw.apart y hy).field_get]
    exact h.field y hy fun hmem => hkey (List.mem_cons_of_mem _ hmem)
  · intro host' hhost' shape' hshape' y hy hkey
    obtain rfl : host = host' := Option.some.inj (hhost.symm.trans hhost')
    obtain rfl : shape = shape' := Option.some.inj (hshape.symm.trans hshape')
    -- Keys of a distinct shape that are equal belong to one field, which has just been seen.
    have hne : y.key ≠ z.key := by
      intro heq
      rw [List.inj_on_of_nodup_map hdistinct.keys hy hz heq] at hkey
      exact hkey List.mem_cons_self
    rw [hlaw.get_set]
    show Keyed.find? y.key (Keyed.insert z.key value (host.get r).entries) = none
    rw [Keyed.find?_insert_of_ne hne]
    exact h.own host hhost shape hshape y hy fun hmem => hkey (List.mem_cons_of_mem _ hmem)

/-! ## One entry -/

theorem skipUnknown_cases {owner key : String} {n : Nat} {u : Unit}
    (h : sc.skipUnknown owner key = ⟨n, .ok u⟩) : sc.strict = false ∧ n = 1 := by
  unfold Scope.skipUnknown at h
  split at h
  · cases h
  next hstrict =>
    cases h
    exact ⟨by simpa using hstrict, rfl⟩

/-- An unknown field is passed over or refused, whatever the shapes. -/
theorem sheds_skipUnknown (sc : Scope) (owner key : String) :
    Decoding.Sheds sc.strict 0 1 () (sc.bare.skipUnknown owner key) := by
  show Decoding.Sheds sc.strict 0 1 () (if sc.strict then _ else _)
  cases hstrict : sc.strict with
  | false => exact .passed fun h => by cases h
  | true => exact .refused rfl Nat.one_ne_zero rfl

theorem decodeEntry_bare {key : f.Key} (hkey : field? R f key = none) (v : f.Value) (r : R) :
    decodeEntry f sc.bare key v r =
      (sc.bare.skipUnknown (name R) (f.keyText key) >>= fun _ => pure r) := by
  have hshape : shape? R sc.bare.bindings = none := by
    cases hpoint : point? R <;> simp [shape?, hpoint, Scope.bare, ExtensionMap.find?,
      ExtensionMap.empty, Keyed.find?]
  simp [decodeEntry, hkey, hshape]

/-- What an entry without a fixed field is taken for: an extension, or an unknown field. -/
theorem decodeEntry_none_cases {key : f.Key} (hkey : field? R f key = none) {v : f.Value}
    {r y : R} {n : Nat} (h : decodeEntry f sc key v r = ⟨n, .ok y⟩) :
    (∃ shape z value, shape? R sc.bindings = some shape ∧ z ∈ shape.fields ∧
      f.keyOf z.wire = key ∧ n = 0 ∧ y = mapExtensions (·.setDecoded z.key value) r) ∨
      sc.strict = false ∧ n = 1 ∧ y = r := by
  simp only [decodeEntry, hkey] at h
  split at h
  next z hz =>
    obtain ⟨shape, hshape, hz⟩ := Option.bind_eq_some_iff.1 hz
    obtain ⟨value, -, hy⟩ := Decoding.ofExcept_bind_eq_ok_iff.1 h
    obtain ⟨rfl, rfl⟩ := Decoding.pure_eq_ok_iff.1 hy
    obtain ⟨hmem, hwire⟩ := ExtensionShape.mem_of_byWire? hz
    exact Or.inl ⟨shape, z, value, hshape, hmem, hwire, rfl, rfl⟩
  next =>
    obtain ⟨n₁, n₂, u, hskip, hy, rfl⟩ := Decoding.bind_eq_ok_iff.1 h
    obtain ⟨hstrict, rfl⟩ := skipUnknown_cases hskip
    obtain ⟨rfl, rfl⟩ := Decoding.pure_eq_ok_iff.1 hy
    exact Or.inr ⟨hstrict, rfl, rfl⟩

variable {count : R → Nat} {strip : R → R}

/-- One entry: without shapes, what had been stored is stored without its extensions, and an
extension value is passed over. -/
theorem decodeEntry_sheds [LawfulRecord R] (hlaws : Strips R f sc count strip)
    (hdistinct : ∀ shape, shape? R sc.bindings = some shape → shape.Distinct)
    {seen : List f.Key} {key : f.Key} (hkey : key ∉ seen) {v : f.Value} {r y : R} {n : Nat}
    (hfresh : Fresh f sc.bindings seen r) (h : decodeEntry f sc key v r = ⟨n, .ok y⟩) :
    ∃ k, count y = count r + k ∧
      (decodeEntry f sc.bare key v (strip r)).Sheds sc.strict n k (strip y) ∧
      Fresh f sc.bindings (key :: seen) y := by
  -- Fixed fields come before extensions, so both decodes agree on which entries are fixed fields.
  cases hfield : field? R f key with
  | some x =>
    have hx : x ∈ fields := List.mem_of_find?_eq_some hfield
    have hxkey : f.keyOf x.key = key := by simpa using List.find?_some hfield
    obtain ⟨a, ha, rfl⟩ := decodeEntry_field_cases hfield h
    obtain ⟨contents, stripped, hwire, hstrip, hcount⟩ := hlaws.fields x hx
    refine ⟨contents a, hcount a r ?_, ?_, ?_⟩
    · exact hfresh.field x hx (by rwa [hxkey])
    · have hstore : Decoding.Sheds sc.strict n (contents a) (x.set (stripped a))
          ((x.decode f sc.bare v).mapError (.field x.key.name)) :=
        ((hwire ha).map (x.set ·)).mapError fun _ => rfl
      have hbare : decodeEntry f sc.bare key v (strip r) =
          ((x.decode f sc.bare v).mapError (.field x.key.name) >>= fun store =>
            pure (store (strip r))) := by
        simp [decodeEntry, hfield]
      rw [hbare, hstrip]
      exact hstore.map fun store => store (strip r)
    · rw [← hxkey]
      exact hfresh.store hx a
  | none =>
    rw [decodeEntry_bare hfield]
    rcases decodeEntry_none_cases hfield h with
      ⟨shape, z, value, hshape, hz, hzkey, rfl, rfl⟩ | ⟨hstrict, rfl, rfl⟩
    · cases hhost : host (R := R) with
      | none => simp [shape?, point?, hhost] at hshape
      | some host =>
        have hset : mapExtensions (·.setDecoded z.key value) r =
            host.set ((host.get r).setDecoded z.key value) r := by
          simp [mapExtensions, hhost]
        have hnew : Keyed.find? z.key (host.get r).entries = none :=
          hfresh.own host hhost shape hshape z hz (by rwa [hzkey])
        have hlength : ((host.get r).setDecoded z.key value).entries.length =
            (host.get r).entries.length + 1 := Keyed.length_insert hnew value
        have hcount := hlaws.count_host host hhost ((host.get r).setDecoded z.key value) r
        rw [hset]
        -- One entry more in the set, and one more unknown field without the shape.
        refine ⟨1, by omega, ?_, ?_⟩
        · rw [hlaws.strip_host host hhost]
          exact (sheds_skipUnknown sc _ _).map fun _ => strip r
        · rw [← hzkey]
          exact hfresh.extend hhost hshape (hdistinct shape hshape) hz value
    · refine ⟨0, rfl, ?_, hfresh.mono key⟩
      have hskip : sc.bare.skipUnknown (name R) (f.keyText key) = ⟨1, .ok ()⟩ := by
        simp [Scope.skipUnknown, Scope.bare, hstrict, Decoding.skip]
      rw [hskip]
      exact Decoding.sheds_self

/-! ## All entries -/

/-- All entries, one after the other. -/
theorem decodeEntries_sheds [LawfulRecord R] (hlaws : Strips R f sc count strip)
    (hdistinct : ∀ shape, shape? R sc.bindings = some shape → shape.Distinct)
    {entries : List (f.RawKey × f.Value)} {seen : List f.Key} {r y : R} {n : Nat}
    (hfresh : Fresh f sc.bindings seen r)
    (h : decodeEntries f sc seen entries r = ⟨n, .ok y⟩) :
    ∃ k, count y = count r + k ∧
      (decodeEntries f sc.bare seen entries (strip r)).Sheds sc.strict n k (strip y) := by
  -- The second decode always stands at the stripped record of the first.
  induction entries generalizing seen r n with
  | nil =>
    obtain ⟨rfl, rfl⟩ := Decoding.pure_eq_ok_iff.1 h
    exact ⟨0, rfl, Decoding.sheds_self⟩
  | cons e rest ih =>
    obtain ⟨raw, v⟩ := e
    obtain ⟨key, n₁, n₂, r₁, hkey, hseen, hentry, hrest, rfl⟩ := decodeEntries_cases h
    obtain ⟨k, hk, hfirst, hfresh⟩ := decodeEntry_sheds hlaws hdistinct hseen hfresh hentry
    obtain ⟨l, hl, hothers⟩ := ih hfresh hrest
    refine ⟨k + l, by omega, ?_⟩
    rw [decodeEntries_cons hkey hseen]
    exact hfirst.bind _ hothers

/-! ## Whole records -/

theorem fresh_bindOwn [LawfulRecord R] (m : ExtensionMap) :
    Fresh f m [] (bindOwn m (empty : R)) := by
  constructor
  · intro x hx _
    exact field_get_bindOwn_empty hx m
  · intro host hhost shape hshape z hz _
    rw [entries_bindOwn_empty hhost]
    rfl

theorem bindOwn_empty_empty [LawfulRecord R] : bindOwn .empty (empty : R) = empty := by
  unfold bindOwn mapExtensions
  split
  next h hhost =>
    have hshape : shape? R .empty = none := by
      cases hpoint : point? R <;> simp [shape?, hpoint, ExtensionMap.find?, ExtensionMap.empty,
        Keyed.find?]
    rw [hshape]
    exact (LawfulRecord.host h hhost).set_get _
  next => rfl

theorem Strips.strip_bindOwn (hlaws : Strips R f sc count strip) (m : ExtensionMap) :
    strip (bindOwn m empty) = empty := by
  unfold bindOwn mapExtensions
  split
  next h hhost => rw [hlaws.strip_host h hhost, hlaws.strip_empty]
  next => exact hlaws.strip_empty

theorem Strips.count_bindOwn [LawfulRecord R] (hlaws : Strips R f sc count strip)
    (m : ExtensionMap) : count (bindOwn m empty) = 0 := by
  unfold bindOwn mapExtensions
  split
  next h hhost =>
    have hcount := hlaws.count_host h hhost ((h.get empty).bindOptional (shape? R m)) empty
    have hentries : (ExtensionSet.empty.bindOptional (shape? R m)).entries = [] := by
      cases shape? R m <;> rfl
    rw [(LawfulRecord.host h hhost).get_empty] at hcount ⊢
    rw [hlaws.count_empty, hentries] at hcount
    exact (Nat.add_eq_zero_iff.1 hcount).1
  next => exact hlaws.count_empty

/-- A record that names no registered profile is read without shapes as the record without its
extensions. -/
theorem decode_sheds [LawfulRecord R] (hlaws : Strips R f sc count strip)
    (hdistinct : ∀ shape, shape? R sc.bindings = some shape → shape.Distinct)
    {v : f.Value} {r : R} {n : Nat}
    (hprofile : ∀ entries, f.members v = .ok entries →
      (profileHint R f entries).bind sc.profiles = none)
    (h : decode f sc v = ⟨n, .ok r⟩) :
    (decode f sc.bare v : Decoding R).Sheds sc.strict n (count r) (strip r) := by
  obtain ⟨entries, hentries, hread⟩ := decode_cases h
  have hscoped : sc.scopedTo (profileHint R f entries) = sc := by
    simp [Scope.scopedTo, hprofile entries hentries]
  have hbare : sc.bare.scopedTo (profileHint R f entries) = sc.bare := by
    simp [Scope.scopedTo, Scope.bare, hprofile entries hentries]
  rw [hscoped] at hread
  obtain ⟨k, hk, hsheds⟩ := decodeEntries_sheds hlaws hdistinct (fresh_bindOwn _) hread
  -- Before anything is read, the shapes that were given hold no entry.
  rw [hlaws.strip_bindOwn] at hsheds
  rw [hlaws.count_bindOwn, Nat.zero_add] at hk
  rw [hk]
  refine .ofExcept_bind hentries ?_
  show (decodeEntries f (sc.bare.scopedTo _) [] entries
    (bindOwn (sc.bare.scopedTo _).bindings empty)).Sheds sc.strict n k (strip r)
  rw [hbare]
  show (decodeEntries f sc.bare [] entries (bindOwn .empty empty)).Sheds sc.strict n k (strip r)
  rw [bindOwn_empty_empty]
  exact hsheds

end Record

end Rim
