import Mathlib.Data.Set.Card
import Rim.Proofs.Record.Sites

/-!
# The unknown fields that a read passes over

* `Reading`: how a value that holds records is read: as a record, a triple, a tag, or a list.
* `Record.Reaches`, `Decoding.Reaches`: the reader of entries or elements comes to one of them,
  because those in front of it have been read.
* `PassesOver`: the place of an unknown field that a lenient read passes over, at any depth. It does
  not matter what becomes of the read afterwards.
* `encard_passesOver`: there are as many such places as the read has noted.
-/

namespace Rim

/-! ## How values are read -/

/-- How a value that holds records is read. -/
inductive Reading where
  | record (k : RecordKind)
  | triple
  /-- A tag in its envelope. -/
  | tag
  | list (r : Reading)

namespace Reading

abbrev Content : Reading → Type
  | record k => k.Carrier
  | triple => ValueTriple
  | tag => Comid
  | list r => List r.Content

def wire : (r : Reading) → Wire r.Content
  | record k => Record.wire k.Carrier
  | triple => ValueTriple.wire
  | tag => Comid.embedded
  | list r => Wire.list r.wire

end Reading

/-- How what stands under a member is read. -/
def Nested.reading : Nested → Reading
  | .one k => .record k
  | .each k => .list (.record k)
  | .triples => .list .triple
  | .tags => .list .tag

/-- How the content of a field is read, if records stand under it. -/
def RecordKind.reading? (k : RecordKind) (x : Field k.Carrier) : Option Reading :=
  (k.nested.find? fun e => e.1 = x.key.name).map fun e => e.2.reading

/-- The two parts of a triple. -/
def ValueTriple.parts : (f : Form) → f.Value → Except DecodeError (f.Value × f.Value)
  | .binary, v => partsOfCbor v
  | .text, v => partsOfJson v

theorem ValueTriple.decode_eq (f : Form) (sc : Scope) (v : f.Value) :
    wire.decode f sc v =
      Decoding.ofExcept (parts f v) >>= fun (e, ms) => decodeParts f sc e ms := by
  cases f <;> rfl

/-! ## What a reader comes to -/

/-- The reader of a list comes to an element: those in front of it are read. -/
inductive Decoding.Reaches {α β : Type} (read : α → Decoding β) : List α → Nat → α → Prop where
  | here {x : α} {rest : List α} : Reaches read (x :: rest) 0 x
  | behind {x z : α} {rest : List α} {i : Nat} {y : β} : (read x).outcome = .ok y →
      Reaches read rest i z → Reaches read (x :: rest) (i + 1) z

/-- The reader of a triple comes to its environment and, if that is read, to its measurements. -/
inductive ValueTriple.Reaches (f : Form) (sc : Scope) (parts : f.Value × f.Value) :
    Nat → Reading × f.Value → Prop where
  | environment : Reaches f sc parts 0 (.record .environment, parts.1)
  | measurements {e : Environment} : (Record.decode f sc parts.1).outcome = .ok e →
      Reaches f sc parts 1 (.list (.record .measurement), parts.2)

/-- The reader of entries comes to one of them, with its key and content: those in front of it are
read, and its key is not among those gone through. -/
inductive Record.Reaches {R : Type} [Record R] (f : Form) (sc : Scope) :
    List f.Key → R → List (f.RawKey × f.Value) → Nat → f.Key × f.Value → Prop where
  | here {seen : List f.Key} {r : R} {raw : f.RawKey} {key : f.Key} {v : f.Value}
      {rest : List (f.RawKey × f.Value)} : f.readKey raw = .ok key → key ∉ seen →
      Reaches f sc seen r ((raw, v) :: rest) 0 (key, v)
  | behind {seen : List f.Key} {r y : R} {raw : f.RawKey} {key : f.Key} {v : f.Value}
      {rest : List (f.RawKey × f.Value)} {i : Nat} {entry : f.Key × f.Value} :
      f.readKey raw = .ok key → key ∉ seen → (decodeEntry f sc key v r).outcome = .ok y →
      Reaches f sc (key :: seen) y rest i entry →
      Reaches f sc seen r ((raw, v) :: rest) (i + 1) entry

/-- The reader of a record comes to the entry at a position. The record may put the shapes of its
own profile in force, which makes the scope `inner`. -/
def RecordKind.Reaches (k : RecordKind) (f : Form) (sc : Scope) (v : f.Value) (inner : Scope)
    (i : Nat) (entry : f.Key × f.Value) : Prop :=
  ∃ entries, f.members v = .ok entries ∧
    inner = sc.scopedTo (Record.profileHint k.Carrier f entries) ∧
    Record.Reaches f inner [] (Record.bindOwn inner.bindings (Record.empty : k.Carrier)) entries i
      entry

/-- A key that a reader does not know when some shapes are in force. -/
structure RecordKind.Unknown (k : RecordKind) (f : Form) (m : ExtensionMap) (key : f.Key) :
    Prop where
  field : Record.field? k.Carrier f key = none
  extension : (Record.shape? k.Carrier m).bind (·.byWire? f key) = none

/-- A read passes over the unknown field at a place, which is given by the positions of the entries
and elements that lead to it. -/
inductive PassesOver (f : Form) : Scope → Reading → f.Value → List Nat → Prop where
  | unknown {sc inner : Scope} {k : RecordKind} {v content : f.Value} {i : Nat} {key : f.Key} :
      k.Reaches f sc v inner i (key, content) → k.Unknown f inner.bindings key →
      inner.strict = false → PassesOver f sc (.record k) v [i]
  | field {sc inner : Scope} {k : RecordKind} {v content : f.Value} {i : Nat} {key : f.Key}
      {x : Field k.Carrier} {r : Reading} {place : List Nat} :
      k.Reaches f sc v inner i (key, content) → Record.field? k.Carrier f key = some x →
      k.reading? x = some r → PassesOver f inner r content place →
      PassesOver f sc (.record k) v (i :: place)
  | element {sc : Scope} {r : Reading} {v item : f.Value} {items : List f.Value} {i : Nat}
      {place : List Nat} : f.elements v = .ok items →
      Decoding.Reaches (r.wire.decode f sc) items i item → PassesOver f sc r item place →
      PassesOver f sc (.list r) v (i :: place)
  | part {sc : Scope} {v content : f.Value} {parts : f.Value × f.Value} {i : Nat} {r : Reading}
      {place : List Nat} : ValueTriple.parts f v = .ok parts →
      ValueTriple.Reaches f sc parts i (r, content) → PassesOver f sc r content place →
      PassesOver f sc .triple v (i :: place)
  | tag {sc : Scope} {v inner : f.Value} {place : List Nat} : Comid.unwrap f v = .ok inner →
      PassesOver f sc (.record .comid) inner place → PassesOver f sc .tag v place

/-! ## Counting places -/

section

variable {γ : Type}

/-- The places under what is reached at each position. -/
def placesUnder (Reached : Nat → γ → Prop) (Under : γ → Set (List Nat)) : Set (List Nat) :=
  {p | ∃ i x place, p = i :: place ∧ Reached i x ∧ place ∈ Under x}

theorem cons_mem_placesUnder {Reached : Nat → γ → Prop} {Under : γ → Set (List Nat)} {i : Nat}
    {place : List Nat} :
    i :: place ∈ placesUnder Reached Under ↔ ∃ x, Reached i x ∧ place ∈ Under x := by
  constructor
  · rintro ⟨_, x, _, ⟨⟩, hx⟩
    exact ⟨x, hx⟩
  · rintro ⟨x, hx⟩
    exact ⟨i, x, place, rfl, hx⟩

theorem nil_notMem_placesUnder (Reached : Nat → γ → Prop) (Under : γ → Set (List Nat)) :
    [] ∉ placesUnder Reached Under := by
  rintro ⟨i, x, place, h, -⟩
  cases h

theorem placesUnder_of_none {Reached : Nat → γ → Prop} (h : ∀ i x, ¬ Reached i x)
    (Under : γ → Set (List Nat)) : placesUnder Reached Under = ∅ := by
  simp [placesUnder, h]

/-- The places under the first position, and those under the positions behind it. -/
theorem encard_placesUnder {Reached Behind : Nat → γ → Prop} {first : γ}
    (hzero : ∀ x, Reached 0 x ↔ x = first) (hsucc : ∀ i x, Reached (i + 1) x ↔ Behind i x)
    (Under : γ → Set (List Nat)) :
    (placesUnder Reached Under).encard =
      (Under first).encard + (placesUnder Behind Under).encard := by
  have hshift : Function.Injective (List.modifyHead Nat.succ) := by
    rintro (_ | ⟨i, p⟩) (_ | ⟨j, q⟩) h <;> simp_all
  have hplaces : placesUnder Reached Under =
      List.cons 0 '' Under first ∪ List.modifyHead Nat.succ '' placesUnder Behind Under := by
    ext place
    rcases place with _ | ⟨_ | i, place⟩
    · simp [nil_notMem_placesUnder]
    · have hbehind : 0 :: place ∉ List.modifyHead Nat.succ '' placesUnder Behind Under := by
        rintro ⟨_ | ⟨i, p⟩, -, h⟩ <;> simp at h
      simp [cons_mem_placesUnder, hzero, hbehind]
    · have hbehind := hshift.mem_set_image (a := i :: place) (s := placesUnder Behind Under)
      rw [List.modifyHead_cons] at hbehind
      simp [cons_mem_placesUnder, hsucc, hbehind]
  have hdisjoint : Disjoint (List.cons 0 '' Under first)
      (List.modifyHead Nat.succ '' placesUnder Behind Under) := by
    rw [Set.disjoint_left]
    rintro _ ⟨place, -, rfl⟩ ⟨_ | ⟨i, p⟩, -, h⟩ <;> simp at h
  rw [hplaces, Set.encard_union_eq hdisjoint, List.cons_injective.encard_image,
    hshift.encard_image]

/-- Nothing stands behind the first position. -/
theorem encard_placesUnder_last (first : γ) (Under : γ → Set (List Nat)) :
    (placesUnder (fun i x => i = 0 ∧ x = first) Under).encard = (Under first).encard := by
  have hzero : ∀ x, 0 = 0 ∧ x = first ↔ x = first := by simp
  have hsucc : ∀ i x, i + 1 = 0 ∧ x = first ↔ False := by simp
  rw [encard_placesUnder hzero hsucc, placesUnder_of_none (fun _ _ => id), Set.encard_empty,
    add_zero]

/-- A decode passes over what its first step does and, if that succeeds, what the next one does. -/
theorem encard_placesUnder_bind {α β : Type} {d : Decoding α} {next : α → Decoding β}
    {Reached : Nat → γ → Prop} {Behind : α → Nat → γ → Prop} {first : γ}
    {Under : γ → Set (List Nat)} (hzero : ∀ x, Reached 0 x ↔ x = first)
    (hsucc : ∀ i x, Reached (i + 1) x ↔ ∃ a, d.outcome = .ok a ∧ Behind a i x)
    (hfirst : (Under first).encard = d.skipped)
    (hnext : ∀ a, (placesUnder (Behind a) Under).encard = (next a).skipped) :
    (placesUnder Reached Under).encard = (d >>= next).skipped := by
  obtain ⟨n, _ | a⟩ := d
  · have hnone : ∀ i x, Reached (i + 1) x ↔ False := fun i x => by simp [hsucc]
    rw [encard_placesUnder hzero hnone, hfirst, placesUnder_of_none (fun _ _ => id),
      Set.encard_empty, add_zero, Decoding.bind_error]
  · have hbehind : ∀ i x, Reached (i + 1) x ↔ Behind a i x := fun i x => by simp [hsucc]
    rw [encard_placesUnder hzero hbehind, hfirst, hnext, Decoding.bind_ok, Nat.cast_add]

end

namespace Decoding

variable {α β : Type}

/-- What is done to the result does not count. -/
@[simp] theorem skipped_map (d : Decoding α) (g : α → β) : (g <$> d).skipped = d.skipped := by
  obtain ⟨n, _ | a⟩ := d <;> rfl

theorem reaches_zero_iff {read : α → Decoding β} {x z : α} {rest : List α} :
    Reaches read (x :: rest) 0 z ↔ z = x := by
  constructor
  · rintro ⟨⟩
    rfl
  · rintro rfl
    exact .here

theorem reaches_succ_iff {read : α → Decoding β} {x z : α} {rest : List α} {i : Nat} :
    Reaches read (x :: rest) (i + 1) z ↔
      ∃ y, (read x).outcome = .ok y ∧ Reaches read rest i z := by
  constructor
  · rintro (_ | ⟨hy, hz⟩)
    exact ⟨_, hy, hz⟩
  · rintro ⟨y, hy, hz⟩
    exact .behind hy hz

/-- What a list passes over is what its elements pass over, up to the first that cannot be read. -/
theorem encard_listFrom {read : α → Decoding β} {Under : α → Set (List Nat)}
    (h : ∀ x, (Under x).encard = (read x).skipped) (index : Nat) (items : List α) :
    (placesUnder (Reaches read items) Under).encard = (listFrom read index items).skipped := by
  induction items generalizing index with
  | nil =>
    rw [placesUnder_of_none nofun, Set.encard_empty]
    rfl
  | cons x rest ih =>
    have hsucc : ∀ i z, Reaches read (x :: rest) (i + 1) z ↔
        ∃ y, ((read x).mapError (.index index)).outcome = .ok y ∧ Reaches read rest i z := by
      simp [reaches_succ_iff, mapError, Except.mapError_eq_ok_iff]
    refine encard_placesUnder_bind (fun _ => reaches_zero_iff) hsucc (h x) fun y => ?_
    rw [ih (index + 1), bind_pure_comp, skipped_map]

end Decoding

namespace Record

variable {R : Type} [Record R] {f : Form} {sc : Scope} {seen : List f.Key} {r : R}
  {raw : f.RawKey} {v : f.Value} {rest : List (f.RawKey × f.Value)}

theorem reaches_zero_iff {key : f.Key} (hkey : f.readKey raw = .ok key) (hseen : key ∉ seen)
    {entry : f.Key × f.Value} :
    Reaches f sc seen r ((raw, v) :: rest) 0 entry ↔ entry = (key, v) := by
  constructor
  · rintro (⟨hkey', -⟩ | _)
    rw [Except.ok.inj (hkey.symm.trans hkey')]
  · rintro rfl
    exact .here hkey hseen

theorem reaches_succ_iff {key : f.Key} (hkey : f.readKey raw = .ok key) (hseen : key ∉ seen)
    {i : Nat} {entry : f.Key × f.Value} :
    Reaches f sc seen r ((raw, v) :: rest) (i + 1) entry ↔
      ∃ y, (decodeEntry f sc key v r).outcome = .ok y ∧
        Reaches f sc (key :: seen) y rest i entry := by
  constructor
  · rintro (_ | ⟨hkey', -, hread, hrest⟩)
    obtain rfl := Except.ok.inj (hkey.symm.trans hkey')
    exact ⟨_, hread, hrest⟩
  · rintro ⟨y, hread, hrest⟩
    exact .behind hkey hseen hread hrest

/-- An entry that is refused for its key passes nothing over, and nothing behind it is reached. -/
theorem encard_decodeEntries_of_refused {Under : f.Key × f.Value → Set (List Nat)}
    (h : ∀ key, f.readKey raw = .ok key → key ∈ seen) :
    (placesUnder (Reaches f sc seen r ((raw, v) :: rest)) Under).encard =
      (decodeEntries f sc seen ((raw, v) :: rest) r).skipped := by
  have hnone : ∀ i entry, ¬ Reaches f sc seen r ((raw, v) :: rest) i entry := by
    rintro i entry (⟨hkey, hseen⟩ | ⟨hkey, hseen, -, -⟩) <;> exact hseen (h _ hkey)
  rw [placesUnder_of_none hnone, Set.encard_empty, decodeEntries]
  cases hkey : f.readKey raw with
  | error e => rfl
  | ok key =>
    rw [Decoding.ofExcept_ok_bind, if_pos (h key hkey)]
    rfl

/-- What a record passes over is what its entries pass over, up to the first that cannot be read. -/
theorem encard_decodeEntries {Under : f.Key × f.Value → Set (List Nat)}
    (h : ∀ key v (r : R), (Under (key, v)).encard = (decodeEntry f sc key v r).skipped)
    (seen : List f.Key) (entries : List (f.RawKey × f.Value)) (r : R) :
    (placesUnder (Reaches f sc seen r entries) Under).encard =
      (decodeEntries f sc seen entries r).skipped := by
  induction entries generalizing seen r with
  | nil =>
    rw [placesUnder_of_none nofun, Set.encard_empty]
    rfl
  | cons e rest ih =>
    obtain ⟨raw, v⟩ := e
    by_cases hnew : ∃ key, f.readKey raw = .ok key ∧ key ∉ seen
    · obtain ⟨key, hkey, hseen⟩ := hnew
      rw [decodeEntries_cons hkey hseen]
      exact encard_placesUnder_bind (fun _ => reaches_zero_iff hkey hseen)
        (fun _ _ => reaches_succ_iff hkey hseen) (h key v r) (ih (key :: seen))
    · exact encard_decodeEntries_of_refused (by simpa using hnew)

end Record

/-! ## Fields -/

/-- The content of a field passes over what is passed over in what stands under it. -/
theorem RecordKind.skipped_field (k : RecordKind) (f : Form) (sc : Scope) (v : f.Value) :
    ∀ x ∈ Record.fields (R := k.Carrier), (x.wire.decode f sc v).skipped =
      ((k.reading? x).map fun r => (r.wire.decode f sc v).skipped).getD 0 := by
  refine List.forall_iff_forall_mem.1 ?_
  cases k with
  | comid => exact ⟨rfl, rfl, rfl, rfl⟩
  | tagIdentity => exact ⟨rfl, rfl⟩
  | entity => exact ⟨rfl, rfl, rfl⟩
  | triples => exact ⟨rfl, rfl⟩
  | environment => exact rfl
  | class_ => exact ⟨rfl, rfl, rfl, rfl, rfl⟩
  | measurement => exact rfl
  | mval => exact ⟨rfl, rfl, rfl, rfl, rfl⟩
  | version => exact ⟨rfl, rfl⟩
  | unsignedCorim => exact ⟨rfl, rfl, rfl, rfl, rfl⟩
  | meta_ => exact ⟨rfl, rfl⟩
  | signer => exact ⟨rfl, rfl⟩
  | validity => exact ⟨rfl, rfl⟩

/-- The read of a value passes over as many unknown fields as there are places. -/
def Reading.Accounted (r : Reading) : Prop :=
  ∀ f sc v, {p | PassesOver f sc r v p}.encard = (r.wire.decode f sc v).skipped

theorem RecordKind.accounted_of_reading? {k : RecordKind}
    (h : ∀ e ∈ k.nested, e.2.reading.Accounted) {x : Field k.Carrier} {r : Reading}
    (hr : k.reading? x = some r) : r.Accounted := by
  obtain ⟨e, he, rfl⟩ := Option.map_eq_some_iff.1 hr
  exact h e (List.mem_of_find?_eq_some he)

/-- The places in an entry: that of the entry itself if its key is unknown and passed over, and
those in the content of a fixed field. -/
def RecordKind.placesIn (k : RecordKind) (f : Form) (sc : Scope) (entry : f.Key × f.Value) :
    Set (List Nat) :=
  {p | p = [] ∧ k.Unknown f sc.bindings entry.1 ∧ sc.strict = false ∨
    ∃ x r, Record.field? k.Carrier f entry.1 = some x ∧ k.reading? x = some r ∧
      PassesOver f sc r entry.2 p}

section

variable {k : RecordKind} {f : Form} {sc : Scope} {key : f.Key} {v : f.Value}

/-- At a fixed field, the places are those in its content. -/
theorem RecordKind.encard_placesIn_of_field (h : ∀ e ∈ k.nested, e.2.reading.Accounted)
    {x : Field k.Carrier} (hx : Record.field? k.Carrier f key = some x) :
    (k.placesIn f sc (key, v)).encard = (x.wire.decode f sc v).skipped := by
  have hplaces : k.placesIn f sc (key, v) =
      {p | ∃ r, k.reading? x = some r ∧ PassesOver f sc r v p} := by
    ext p
    constructor
    · rintro (⟨-, hunknown, -⟩ | ⟨x', r, hx', hr, hp⟩)
      · cases hx.symm.trans hunknown.field
      · obtain rfl := Option.some.inj (hx.symm.trans hx')
        exact ⟨r, hr, hp⟩
    · rintro ⟨r, hr, hp⟩
      exact .inr ⟨x, r, hx, hr, hp⟩
  rw [k.skipped_field f sc v x (List.mem_of_find?_eq_some hx), hplaces]
  cases hr : k.reading? x with
  | none => simp
  | some r => simpa using accounted_of_reading? h hr f sc v

/-- At an entry that is no fixed field: a declared extension holds no records, and an unknown field
is passed over where it stands, or refused. -/
theorem RecordKind.encard_placesIn_of_none (hx : Record.field? k.Carrier f key = none)
    (r : k.Carrier) :
    (k.placesIn f sc (key, v)).encard = (Record.decodeEntry f sc key v r).skipped := by
  have hplaces : k.placesIn f sc (key, v) =
      {p | p = [] ∧ k.Unknown f sc.bindings key ∧ sc.strict = false} := by
    ext p
    simp [placesIn, hx]
  rw [hplaces, Record.decodeEntry, hx]
  cases hz : (Record.shape? k.Carrier sc.bindings).bind (·.byWire? f key) with
  | some z =>
    have hknown : ¬ k.Unknown f sc.bindings key := fun h => by
      cases hz.symm.trans h.extension
    simp [hknown, Decoding.ofExcept]
  | none =>
    have hunknown : k.Unknown f sc.bindings key := ⟨hx, hz⟩
    cases hstrict : sc.strict <;>
      simp [hunknown, Scope.skipUnknown, hstrict, Decoding.skip, Decoding.fail]

theorem RecordKind.encard_placesIn (h : ∀ e ∈ k.nested, e.2.reading.Accounted) (r : k.Carrier) :
    (k.placesIn f sc (key, v)).encard = (Record.decodeEntry f sc key v r).skipped := by
  cases hx : Record.field? k.Carrier f key with
  | none => exact encard_placesIn_of_none hx r
  | some x =>
    rw [encard_placesIn_of_field h hx, Record.decodeEntry, hx]
    simp [Decoding.mapError, Field.decode]

end

/-! ## Values that hold records -/

/-- Nothing is passed over before a value has been taken apart. -/
theorem Decoding.encard_ofExcept_bind {α β : Type} {x : Except DecodeError α}
    {next : α → Decoding β} {S : Set (List Nat)} {T : α → Set (List Nat)}
    (hS : ∀ p, p ∈ S ↔ ∃ a, x = .ok a ∧ p ∈ T a)
    (hT : ∀ a, (T a).encard = (next a).skipped) :
    S.encard = (Decoding.ofExcept x >>= next).skipped := by
  cases x with
  | error e =>
    have hempty : S = ∅ := Set.eq_empty_iff_forall_notMem.2 fun p hp => by simpa using (hS p).1 hp
    rw [hempty, Set.encard_empty]
    rfl
  | ok a =>
    have hsame : S = T a := Set.ext fun p => by simp [hS]
    rw [hsame, hT, Decoding.ofExcept_ok_bind]

namespace Reading

/-- A record is accounted for if what stands under its fields is. -/
theorem accounted_record {k : RecordKind} (h : ∀ e ∈ k.nested, e.2.reading.Accounted) :
    (record k).Accounted := by
  intro f sc v
  let inner (entries : List (f.RawKey × f.Value)) : Scope :=
    sc.scopedTo (Record.profileHint k.Carrier f entries)
  have hplaces : ∀ p, PassesOver f sc (.record k) v p ↔ ∃ entries, f.members v = .ok entries ∧
      p ∈ placesUnder (Record.Reaches f (inner entries) []
        (Record.bindOwn (inner entries).bindings (Record.empty : k.Carrier)) entries)
          (k.placesIn f (inner entries)) := by
    intro p
    constructor
    · intro hp
      cases hp with
      | unknown hreaches hunknown hlenient =>
        obtain ⟨entries, hentries, rfl, hreaches⟩ := hreaches
        exact ⟨entries, hentries, _, _, _, rfl, hreaches, .inl ⟨rfl, hunknown, hlenient⟩⟩
      | field hreaches hx hr hp =>
        obtain ⟨entries, hentries, rfl, hreaches⟩ := hreaches
        exact ⟨entries, hentries, _, _, _, rfl, hreaches, .inr ⟨_, _, hx, hr, hp⟩⟩
    · rintro ⟨entries, hentries, i, ⟨key, content⟩, place, rfl, hreaches, hplace⟩
      have hreaches : k.Reaches f sc v (inner entries) i (key, content) :=
        ⟨entries, hentries, rfl, hreaches⟩
      rcases hplace with ⟨rfl, hunknown, hlenient⟩ | ⟨x, r, hx, hr, hplace⟩
      · exact .unknown hreaches hunknown hlenient
      · exact .field hreaches hx hr hplace
  exact Decoding.encard_ofExcept_bind hplaces fun entries =>
    Record.encard_decodeEntries (fun _ _ r => RecordKind.encard_placesIn h r) [] entries _

/-- So is a list if its elements are. -/
theorem accounted_list {r : Reading} (h : r.Accounted) : (list r).Accounted := by
  intro f sc v
  have hplaces : ∀ p, PassesOver f sc (.list r) v p ↔ ∃ items, f.elements v = .ok items ∧
      p ∈ placesUnder (Decoding.Reaches (r.wire.decode f sc) items)
        fun item => {q | PassesOver f sc r item q} := by
    intro p
    constructor
    · intro hp
      cases hp with
      | element hitems hreaches hp => exact ⟨_, hitems, _, _, _, rfl, hreaches, hp⟩
    · rintro ⟨items, hitems, i, item, place, rfl, hreaches, hplace⟩
      exact .element hitems hreaches hplace
  exact Decoding.encard_ofExcept_bind hplaces fun items =>
    Decoding.encard_listFrom (fun item => h f sc item) 0 items

/-- The measurements are read after the environment. -/
theorem encard_decodeParts {f : Form} {sc : Scope} (parts : f.Value × f.Value)
    {Under : Reading × f.Value → Set (List Nat)}
    (he : ∀ v, (Under (record .environment, v)).encard =
      ((record .environment).wire.decode f sc v).skipped)
    (hms : ∀ v, (Under (list (record .measurement), v)).encard =
      ((list (record .measurement)).wire.decode f sc v).skipped) :
    (placesUnder (ValueTriple.Reaches f sc parts) Under).encard =
      (ValueTriple.decodeParts f sc parts.1 parts.2).skipped := by
  have hzero : ∀ x, ValueTriple.Reaches f sc parts 0 x ↔ x = (record .environment, parts.1) := by
    refine fun x => ⟨?_, ?_⟩
    · rintro ⟨⟩
      rfl
    · rintro rfl
      exact .environment
  have hsucc : ∀ i x, ValueTriple.Reaches f sc parts (i + 1) x ↔
      ∃ e, ((Record.decode f sc parts.1 : Decoding Environment).mapError
        (.field "environment")).outcome = .ok e ∧
          (i = 0 ∧ x = (list (record .measurement), parts.2)) := by
    refine fun i x => ⟨?_, ?_⟩
    · intro hx
      cases hx with
      | measurements hread => exact ⟨_, Except.mapError_eq_ok_iff.2 hread, rfl, rfl⟩
    · rintro ⟨e, hread, rfl, rfl⟩
      exact .measurements (Except.mapError_eq_ok_iff.1 hread)
  refine encard_placesUnder_bind hzero hsucc (he parts.1) fun e => ?_
  rw [encard_placesUnder_last, hms, bind_pure_comp, Decoding.skipped_map]
  rfl

theorem accounted_triple (he : (record .environment).Accounted)
    (hm : (record .measurement).Accounted) : triple.Accounted := by
  intro f sc v
  have hplaces : ∀ p, PassesOver f sc .triple v p ↔ ∃ parts, ValueTriple.parts f v = .ok parts ∧
      p ∈ placesUnder (ValueTriple.Reaches f sc parts)
        fun x => {q | PassesOver f sc x.1 x.2 q} := by
    intro p
    constructor
    · intro hp
      cases hp with
      | part hparts hreaches hp => exact ⟨_, hparts, _, _, _, rfl, hreaches, hp⟩
    · rintro ⟨parts, hparts, i, ⟨r, content⟩, place, rfl, hreaches, hplace⟩
      exact .part hparts hreaches hplace
  show _ = ((ValueTriple.wire.decode f sc v).skipped : ℕ∞)
  rw [ValueTriple.decode_eq]
  exact Decoding.encard_ofExcept_bind hplaces fun parts =>
    encard_decodeParts parts (he f sc) (accounted_list hm f sc)

theorem accounted_tag (h : (record .comid).Accounted) : tag.Accounted := by
  intro f sc v
  have hplaces : ∀ p, PassesOver f sc .tag v p ↔ ∃ inner, Comid.unwrap f v = .ok inner ∧
      PassesOver f sc (.record .comid) inner p := by
    intro p
    constructor
    · intro hp
      cases hp with
      | tag hinner hp => exact ⟨_, hinner, hp⟩
    · rintro ⟨inner, hinner, hp⟩
      exact .tag hinner hp
  show _ = ((Comid.embedded.decode f sc v).skipped : ℕ∞)
  rw [Comid.decode_embedded]
  exact Decoding.encard_ofExcept_bind hplaces fun inner => h f sc inner

theorem accounted_kind (k : RecordKind) : (record k).Accounted := by
  -- From the records without others inside outwards.
  have hinner : ∀ k : RecordKind, k.nested = [] → (record k).Accounted := fun k hk =>
    accounted_record (by simp [hk])
  have hnested : ∀ k : RecordKind, k.nested.Forall (fun e => e.2.reading.Accounted) →
      (record k).Accounted := fun k hk => accounted_record (List.forall_iff_forall_mem.1 hk)
  have henvironment := hnested .environment (hinner .class_ rfl)
  have hmval := hnested .mval (hinner .version rfl)
  have hmeasurement := hnested .measurement hmval
  have htriple := accounted_list (accounted_triple henvironment hmeasurement)
  have htriples := hnested .triples ⟨htriple, htriple⟩
  have hentities := accounted_list (hinner .entity rfl)
  have hcomid := hnested .comid ⟨hinner .tagIdentity rfl, hentities, htriples⟩
  have htags := accounted_list (accounted_tag hcomid)
  cases k with
  | comid => exact hcomid
  | triples => exact htriples
  | environment => exact henvironment
  | measurement => exact hmeasurement
  | mval => exact hmval
  | unsignedCorim => exact hnested _ ⟨htags, hinner .validity rfl, hentities⟩
  | meta_ => exact hnested _ ⟨hinner .signer rfl, hinner .validity rfl⟩
  | _ => exact hinner _ rfl

end Reading

/-- A read notes as many unknown fields as there are places of those that it passes over, whether it
succeeds or fails. -/
theorem encard_passesOver (f : Form) (sc : Scope) (r : Reading) (v : f.Value) :
    {p | PassesOver f sc r v p}.encard = (r.wire.decode f sc v).skipped := by
  have h : r.Accounted := by
    induction r with
    | record k => exact Reading.accounted_kind k
    | triple => exact Reading.accounted_triple (Reading.accounted_kind _) (Reading.accounted_kind _)
    | tag => exact Reading.accounted_tag (Reading.accounted_kind _)
    | list r ih => exact Reading.accounted_list ih
  exact h f sc v

end Rim
