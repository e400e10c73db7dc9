import Mathlib.Data.List.Find
import Rim.Proofs.Schema.Invariant

/-!
# The order of entries does not matter

* `Form.KeysOnce`: every key among some entries can be read, and none comes twice.
* `Record.Stored.swap`: values under different keys may be stored in either order.
* `Record.decodeEntries_perm`: entries in any order are read into the same record.
* `Record.profileHint_perm`: the profile is found wherever its entry stands.
* `Record.decode_perm`: a record whose entries are put in another order is read as the same record,
  and the same number of unknown fields is passed over.
-/

namespace Rim

/-! ## Keys -/

/-- Every key can be read, and none comes twice. -/
structure Form.KeysOnce (f : Form) (entries : List (f.RawKey × f.Value)) : Prop where
  readable : ∀ e ∈ entries, ∃ key, f.readKey e.1 = .ok key
  distinct : entries.Pairwise fun a b => f.readKey a.1 ≠ f.readKey b.1

theorem Form.KeysOnce.perm {f : Form} {entries entries' : List (f.RawKey × f.Value)}
    (h : f.KeysOnce entries) (hperm : entries.Perm entries') : f.KeysOnce entries' :=
  ⟨fun e he => h.readable e (hperm.mem_iff.2 he), h.distinct.perm hperm fun hne => hne.symm⟩

namespace Record

variable {R : Type} [Record R] {f : Form} {sc : Scope}

/-! ## Two values -/

/-- What is stored is what reading the entry makes of the record. -/
theorem decodeEntry_of_stored {key : f.Key} {v : f.Value} {r y : R} {n : Nat}
    (h : Stored f sc key v r n y) : decodeEntry f sc key v r = ⟨n, .ok y⟩ := by
  cases h with
  | field hx hb =>
    simp [decodeEntry, hx, Field.decode, hb, Decoding.mapError, Decoding.pure_eq, Decoding.bind_ok]
  | extension hnone hshape hwire hvalue =>
    simp only [decodeEntry, hnone, hshape, Option.bind_some, hwire, hvalue]
    rfl
  | unknown hnone hshape hskip =>
    simp only [decodeEntry, hnone, hshape, hskip]
    rfl

theorem set_mapExtensions_comm [LawfulRecord R] {x : Field R} (hx : x ∈ fields) (b : x.Content)
    (change : ExtensionSet → ExtensionSet) (r : R) :
    x.set b (mapExtensions change r) = mapExtensions change (x.set b r) := by
  unfold mapExtensions
  split
  next h hhost =>
    have hapart := (LawfulRecord.host h hhost).apart x hx
    rw [hapart.set_comm, hapart.get_set]
  next => rfl

/-- Extension values under different keys may be stored in either order. -/
theorem mapExtensions_setDecoded_comm [LawfulRecord R] {key other : String} (hne : key ≠ other)
    (value w : ExtensionValue) (r : R) :
    mapExtensions (·.setDecoded key value) (mapExtensions (·.setDecoded other w) r) =
      mapExtensions (·.setDecoded other w) (mapExtensions (·.setDecoded key value) r) := by
  unfold mapExtensions
  split
  next h hhost =>
    have hlaw := LawfulRecord.host h hhost
    simp only [hlaw.get_set, hlaw.set_set, ExtensionSet.setDecoded, ExtensionSet.put_comm hne]
  next => rfl

/-- Values under different keys may be stored in either order. -/
theorem Stored.swap [LawfulRecord R]
    (hdistinct : ∀ {shape}, shape? R sc.bindings = some shape → shape.Distinct)
    {key key' : f.Key} (hne : key ≠ key') {v v' : f.Value} {r y z : R} {n n' : Nat}
    (h : Stored f sc key v r n y) (h' : Stored f sc key' v' y n' z) :
    ∃ y', Stored f sc key' v' r n' y' ∧ Stored f sc key v y' n z := by
  have hmem : ∀ {key : f.Key} {x : Field R}, field? R f key = some x →
      x ∈ fields ∧ f.keyOf x.key = key := fun hx =>
    ⟨List.mem_of_find?_eq_some hx, by simpa using List.find?_some hx⟩
  cases h with
  | @field x b _ hx hb =>
    cases h' with
    | @field x' b' _ hx' hb' =>
      -- The fields have different keys, and so do not meet.
      have hxx' : x ≠ x' := by
        rintro rfl
        exact hne ((hmem hx).2.symm.trans (hmem hx').2)
      refine ⟨_, .field hx' hb', ?_⟩
      rw [← (apart_of_ne (hmem hx).1 (hmem hx').1 hxx').set_comm]
      exact .field hx hb
    | extension hnone hshape hwire hvalue =>
      refine ⟨_, .extension hnone hshape hwire hvalue, ?_⟩
      rw [← set_mapExtensions_comm (hmem hx).1]
      exact .field hx hb
    | unknown hnone hshape hskip => exact ⟨r, .unknown hnone hshape hskip, .field hx hb⟩
  | @extension shape x value hnone hshape hwire hvalue =>
    cases h' with
    | field hx' hb' =>
      refine ⟨_, .field hx' hb', ?_⟩
      rw [set_mapExtensions_comm (hmem hx').1]
      exact .extension hnone hshape hwire hvalue
    | @extension shape' x' value' hnone' hshape' hwire' hvalue' =>
      obtain rfl : shape = shape' := Option.some.inj (hshape.symm.trans hshape')
      obtain ⟨hx, hkey⟩ := ExtensionShape.mem_of_byWire? hwire
      obtain ⟨hx', hkey'⟩ := ExtensionShape.mem_of_byWire? hwire'
      -- Fields of one shape that share a program key would share their wire keys too.
      have hkeys : x'.key ≠ x.key := by
        intro heq
        rw [List.inj_on_of_nodup_map (hdistinct hshape).keys hx' hx heq] at hkey'
        exact hne (hkey.symm.trans hkey')
      refine ⟨_, .extension hnone' hshape hwire' hvalue', ?_⟩
      rw [mapExtensions_setDecoded_comm hkeys]
      exact .extension hnone hshape hwire hvalue
    | unknown hnone' hshape' hskip' =>
      exact ⟨r, .unknown hnone' hshape' hskip', .extension hnone hshape hwire hvalue⟩
  | unknown hnone hshape hskip => exact ⟨z, h', .unknown hnone hshape hskip⟩

/-! ## All entries -/

/-- Of the keys seen so far it matters only which they are. -/
theorem decodeEntries_congr_seen {seen seen' : List f.Key} (h : ∀ key, key ∈ seen ↔ key ∈ seen')
    (entries : List (f.RawKey × f.Value)) (r : R) :
    decodeEntries f sc seen entries r = decodeEntries f sc seen' entries r := by
  induction entries generalizing seen seen' r with
  | nil => rfl
  | cons e rest ih =>
    obtain ⟨raw, v⟩ := e
    have hrest : ∀ key r, decodeEntries f sc (key :: seen) rest r =
        decodeEntries f sc (key :: seen') rest r := fun key r =>
      ih (fun other => by rw [List.mem_cons, List.mem_cons, h]) r
    simp only [decodeEntries, h, hrest]

/-- The keys of entries that are read can be read themselves, and are seen once. -/
theorem keysOnce_of_decodeEntries {seen : List f.Key} {entries : List (f.RawKey × f.Value)}
    {r y : R} {n : Nat} (h : decodeEntries f sc seen entries r = ⟨n, .ok y⟩) :
    f.KeysOnce entries ∧ ∀ e ∈ entries, ∀ key ∈ seen, f.readKey e.1 ≠ .ok key := by
  induction entries generalizing seen r n with
  | nil => exact ⟨⟨nofun, .nil⟩, nofun⟩
  | cons e rest ih =>
    obtain ⟨key, n₁, n₂, r₁, hkey, hfresh, -, hrest, -⟩ := decodeEntries_cases h
    obtain ⟨honce, hseen⟩ := ih hrest
    refine ⟨⟨List.forall_mem_cons.2 ⟨⟨key, hkey⟩, honce.readable⟩,
      List.pairwise_cons.2 ⟨fun e he => ?_, honce.distinct⟩⟩,
      List.forall_mem_cons.2 ⟨fun other hother heq => ?_, fun e he other hother => ?_⟩⟩
    · rw [hkey]
      exact (hseen e he key (by simp)).symm
    · rw [Except.ok.inj (hkey.symm.trans heq)] at hfresh
      exact hfresh hother
    · exact hseen e he other (List.mem_cons_of_mem _ hother)

/-- Entries in any order are read into the same record. -/
theorem decodeEntries_perm [LawfulRecord R]
    (hdistinct : ∀ {shape}, shape? R sc.bindings = some shape → shape.Distinct)
    {entries entries' : List (f.RawKey × f.Value)} (hperm : entries.Perm entries')
    {seen : List f.Key} {r y : R} {n : Nat}
    (h : decodeEntries f sc seen entries r = ⟨n, .ok y⟩) :
    decodeEntries f sc seen entries' r = ⟨n, .ok y⟩ := by
  induction hperm generalizing seen r n with
  | nil => exact h
  | cons e _ ih =>
    obtain ⟨key, n₁, n₂, r₁, hkey, hfresh, hentry, hrest, rfl⟩ := decodeEntries_cases h
    rw [decodeEntries_cons hkey hfresh, hentry, Decoding.bind_ok, ih hrest]
  | swap e e' rest =>
    obtain ⟨key', n', m, r', hkey', hfresh', hentry', hthen, rfl⟩ := decodeEntries_cases h
    obtain ⟨key, n, k, r₁, hkey, hfresh, hentry, hrest, rfl⟩ := decodeEntries_cases hthen
    have hne : key' ≠ key := fun heq => hfresh (by simp [heq])
    obtain ⟨y', hfirst, hsecond⟩ :=
      (decodeEntry_cases hentry').swap hdistinct hne (decodeEntry_cases hentry)
    have hseen : ∀ other, other ∈ key :: key' :: seen ↔ other ∈ key' :: key :: seen :=
      fun other => (List.Perm.swap key' key seen).mem_iff
    rw [decodeEntries_congr_seen hseen] at hrest
    rw [decodeEntries_cons hkey fun hmem => hfresh (List.mem_cons_of_mem _ hmem),
      decodeEntry_of_stored hfirst, Decoding.bind_ok,
      decodeEntries_cons hkey' (by simp [hne, hfresh']), decodeEntry_of_stored hsecond,
      Decoding.bind_ok, hrest]
    simp only [Nat.add_left_comm]
  | trans _ _ ih ih' => exact ih' (ih h)

/-! ## A whole record -/

/-- The profile is found wherever its entry stands. -/
theorem profileHint_perm {entries entries' : List (f.RawKey × f.Value)}
    (honce : f.KeysOnce entries) (hperm : entries.Perm entries') :
    profileHint R f entries = profileHint R f entries' := by
  unfold profileHint
  cases profileField (R := R) with
  | none => rfl
  | some k =>
    simp only [Option.bind_eq_bind, Option.bind_some]
    rw [List.find?_eq_find?_of_perm hperm]
    rintro a ⟨ha, hak⟩ b ⟨hb, hbk⟩
    split at hak
    next key hkey =>
      split at hbk
      next other hother =>
        -- Entries with the key of the profile are one entry, since no key comes twice.
        have hsame : f.readKey a.1 = f.readKey b.1 := by
          rw [hkey, hother, of_decide_eq_true hak, of_decide_eq_true hbk]
        have hsymm : Std.Symm fun a b : f.RawKey × f.Value => f.readKey a.1 ≠ f.readKey b.1 :=
          ⟨fun _ _ h => h.symm⟩
        by_contra hne
        exact honce.distinct.forall ha hb hne hsame
      next => cases hbk
    next => cases hak

/-- A record whose entries are put in another order is read as the same record, and the same number
of unknown fields is passed over. -/
theorem decode_perm [LawfulRecord R]
    (hdistinct : ∀ id {shape}, shape? R (sc.scopedTo id).bindings = some shape → shape.Distinct)
    {v v' : f.Value} {entries entries' : List (f.RawKey × f.Value)}
    (hentries : f.members v = .ok entries) (hentries' : f.members v' = .ok entries')
    (hperm : entries.Perm entries') {n : Nat} {y : R} (h : decode f sc v = ⟨n, .ok y⟩) :
    decode f sc v' = ⟨n, .ok y⟩ := by
  obtain ⟨found, hfound, hread⟩ := decode_cases h
  obtain rfl := Except.ok.inj (hentries.symm.trans hfound)
  obtain ⟨honce, -⟩ := keysOnce_of_decodeEntries hread
  refine Decoding.ofExcept_bind_eq_ok_iff.2 ⟨entries', hentries', ?_⟩
  rw [← profileHint_perm honce hperm]
  exact decodeEntries_perm (hdistinct _) hperm hread

/-- The keys of a record that is read can be read themselves, and none comes twice. -/
theorem keysOnce_of_decode {v : f.Value} {entries : List (f.RawKey × f.Value)}
    (hentries : f.members v = .ok entries) {n : Nat} {y : R} (h : decode f sc v = ⟨n, .ok y⟩) :
    f.KeysOnce entries := by
  obtain ⟨found, hfound, hread⟩ := decode_cases h
  obtain rfl := Except.ok.inj (hentries.symm.trans hfound)
  exact (keysOnce_of_decodeEntries hread).1

end Record

end Rim
