import Rim.Proofs.Record.Alike
import Rim.Proofs.Record.Octets
import Rim.Proofs.Record.ReadBound

/-!
# Entries under the keys of fixed fields

* `Comid.everySet_like` and its siblings: the sets of equal records are the same data, one by one.
* `UnsignedCorim.profile_of_decodeEntries`: a manifest that has been read names the profile whose
  shapes it was read with.
* `RecordKind.clear_of_decode`: a record that holds an entry under the key of a fixed field is read
  from no value at all.
* `shadowSetup`: a setup that brings such records about. Points go by their names, but a shape is
  checked against the table of the point it is bound to, which may have been left out.
-/

namespace Rim

/-! ## Sets of equal records -/

/-- A set is the same data as one of which something holds. -/
def ExtensionSet.Like (P : ExtensionPoint → ExtensionSet → Prop) (point : ExtensionPoint)
    (set : ExtensionSet) : Prop :=
  ∃ s, (s == set) = true ∧ P point s

section

variable {P : ExtensionPoint → ExtensionSet → Prop}

section

variable {R : Type} [BEq R] [Graph R]

theorem Graph.everySet_like_option {x y : Option R} (h : (y == x) = true)
    (hR : ∀ {a b : R}, (b == a) = true → Graph.EverySet P b →
      Graph.EverySet (ExtensionSet.Like P) a)
    (hy : ∀ b, y = some b → Graph.EverySet P b) :
    ∀ a, x = some a → Graph.EverySet (ExtensionSet.Like P) a := by
  have hrel : Option.Rel (fun _ a => Graph.EverySet (ExtensionSet.Like P) a) y x :=
    rel_of_beq h fun b _ hb _ hab => hR hab (hy b hb)
  rintro a rfl
  cases hrel with
  | some ha => exact ha

theorem Graph.everySet_like_list {xs ys : List R} (h : (ys == xs) = true)
    (hR : ∀ {a b : R}, (b == a) = true → Graph.EverySet P b →
      Graph.EverySet (ExtensionSet.Like P) a)
    (hy : ∀ b ∈ ys, Graph.EverySet P b) :
    ∀ a ∈ xs, Graph.EverySet (ExtensionSet.Like P) a :=
  forall_mem_right_of_forall₂ (forall₂_of_beq h fun b _ hmem hab =>
    hR hab (hy b (List.of_mem_zip hmem).1))

end

theorem Entity.everySet_like {x y : Entity} (h : (y == x) = true) (hy : Graph.EverySet P y) :
    Graph.EverySet (ExtensionSet.Like P) x :=
  x.everySet_iff.2 ⟨_, (beq_iff.1 h).2.2.2, y.everySet_iff.1 hy⟩

theorem Class.everySet_like {x y : Class} (h : (y == x) = true) (hy : Graph.EverySet P y) :
    Graph.EverySet (ExtensionSet.Like P) x :=
  x.everySet_iff.2 ⟨_, (beq_iff.1 h).2.2.2.2.2, y.everySet_iff.1 hy⟩

theorem Environment.everySet_like {x y : Environment} (h : (y == x) = true)
    (hy : Graph.EverySet P y) : Graph.EverySet (ExtensionSet.Like P) x :=
  x.everySet_iff.2 (Graph.everySet_like_option h Class.everySet_like (y.everySet_iff.1 hy))

theorem Mval.everySet_like {x y : Mval} (h : (y == x) = true) (hy : Graph.EverySet P y) :
    Graph.EverySet (ExtensionSet.Like P) x :=
  x.everySet_iff.2 ⟨_, (beq_iff.1 h).2.2.2.2.2, y.everySet_iff.1 hy⟩

theorem Measurement.everySet_like {x y : Measurement} (h : (y == x) = true)
    (hy : Graph.EverySet P y) : Graph.EverySet (ExtensionSet.Like P) x :=
  x.everySet_iff.2 (Graph.everySet_like_option h Mval.everySet_like (y.everySet_iff.1 hy))

theorem ValueTriple.everySet_like {x y : ValueTriple} (h : (y == x) = true)
    (hy : Graph.EverySet P y) : Graph.EverySet (ExtensionSet.Like P) x := by
  obtain ⟨henvironment, hmeasurements⟩ := beq_iff.1 h
  obtain ⟨hyenvironment, hymeasurements⟩ := y.everySet_iff.1 hy
  exact x.everySet_iff.2 ⟨Environment.everySet_like henvironment hyenvironment,
    Graph.everySet_like_list hmeasurements Measurement.everySet_like hymeasurements⟩

theorem Triples.everySet_like {x y : Triples} (h : (y == x) = true) (hy : Graph.EverySet P y) :
    Graph.EverySet (ExtensionSet.Like P) x := by
  obtain ⟨hreference, hendorsed, hset⟩ := beq_iff.1 h
  obtain ⟨⟨hyreference, hyendorsed⟩, hyset⟩ := y.everySet_iff.1 hy
  exact x.everySet_iff.2
    ⟨⟨Graph.everySet_like_list hreference ValueTriple.everySet_like hyreference,
      Graph.everySet_like_list hendorsed ValueTriple.everySet_like hyendorsed⟩, _, hset, hyset⟩

theorem Comid.everySet_like {x y : Comid} (h : (y == x) = true) (hy : Graph.EverySet P y) :
    Graph.EverySet (ExtensionSet.Like P) x := by
  obtain ⟨-, -, hentities, htriples, hset⟩ := beq_iff.1 h
  obtain ⟨⟨hyentities, hytriples⟩, hyset⟩ := y.everySet_iff.1 hy
  exact x.everySet_iff.2 ⟨⟨Graph.everySet_like_list hentities Entity.everySet_like hyentities,
    Triples.everySet_like htriples hytriples⟩, _, hset, hyset⟩

theorem UnsignedCorim.everySet_like {x y : UnsignedCorim} (h : (y == x) = true)
    (hy : Graph.EverySet P y) : Graph.EverySet (ExtensionSet.Like P) x := by
  obtain ⟨-, htags, -, -, hentities, hset⟩ := beq_iff.1 h
  obtain ⟨⟨hytags, hyentities⟩, hyset⟩ := y.everySet_iff.1 hy
  exact x.everySet_iff.2 ⟨⟨Graph.everySet_like_list htags Comid.everySet_like hytags,
    Graph.everySet_like_list hentities Entity.everySet_like hyentities⟩, _, hset, hyset⟩

/-- What holds of every set in a record holds of the same data in an equal record. -/
theorem RecordKind.everySet_like (k : RecordKind) {x y : k.Carrier} (h : (y == x) = true)
    (hy : Graph.EverySet P y) : Graph.EverySet (ExtensionSet.Like P) x := by
  cases k with
  | comid => exact Comid.everySet_like h hy
  | tagIdentity => exact TagIdentity.everySet x
  | entity => exact Entity.everySet_like h hy
  | triples => exact Triples.everySet_like h hy
  | environment => exact Environment.everySet_like h hy
  | class_ => exact Class.everySet_like h hy
  | measurement => exact Measurement.everySet_like h hy
  | mval => exact Mval.everySet_like h hy
  | version => exact Version.everySet x
  | unsignedCorim => exact UnsignedCorim.everySet_like h hy
  | meta_ => exact Meta.everySet x
  | signer => exact Signer.everySet x
  | validity => exact Validity.everySet x

end

/-! ## Profiles -/

namespace UnsignedCorim

variable {f : Form} {sc : Scope}

theorem place_profile : Record.Place profileField UnsignedCorim.profile some := by
  refine ⟨fun _ _ => rfl, ?_, fun _ _ => rfl⟩
  simp [Record.fields, UnsignedCorim.fields, Field.of, profileField, profileKey]

/-- A manifest that has been read names the profile that was looked for first. -/
theorem profile_of_decodeEntries {entries : List (f.RawKey × f.Value)} {n : Nat}
    {y : UnsignedCorim}
    (hread : Record.decodeEntries f sc [] entries (Record.bindOwn sc.bindings Record.empty) =
      ⟨n, .ok y⟩) : y.profile = Record.profileHint UnsignedCorim f entries := by
  cases Record.held profileField_mem place_profile hread with
  | @read raw v m id hmem hkey honly hid hput =>
    -- It is the only entry of its key, so it is the first.
    obtain ⟨before, after, rfl, hnew⟩ := List.eq_append_cons_of_mem hmem
    have hfirst : f.FirstUnder profileKey (before ++ (raw, v) :: after) v :=
      ⟨before, raw, after, rfl, hkey, fun e he hekey =>
        hnew (honly e (List.mem_append_left _ he) hekey ▸ he)⟩
    have hdecode : ProfileId.coding.decode f v = .ok id := (Decoding.ofExcept_eq_ok_iff.1 hid).2
    rw [hput, profileHint_eq hfirst, hdecode]
    rfl
  | absent hnone hput =>
    rw [hput, profileHint_eq_none hnone]
    rfl

end UnsignedCorim

/-- The shapes in force in a document are those of the profile of the record that is read from
it. -/
theorem RecordKind.bindings_codecFor (k : RecordKind) {f : Form} {c : Codec} {reg : Registry}
    {v : f.Value} {n : Nat} {x y : k.Carrier} (hread : Record.decode f (c.scope reg) v = ⟨n, .ok y⟩)
    (hsame : (y == x) = true) :
    (k.codecFor c reg f v).bindings = ((c.scope reg).scopedTo (Graph.profile? x)).bindings := by
  obtain ⟨entries, hentries, hread⟩ := Record.decode_cases hread
  have hscope := k.scopedTo_profileHint c reg hentries
  have hprofile : Record.profileHint k.Carrier f entries = Graph.profile? x := by
    cases k with
    | unsignedCorim =>
      have hsame := (UnsignedCorim.beq_iff.1 hsame).2.2.1
      exact (UnsignedCorim.profile_of_decodeEntries hread).symm.trans hsame
    | _ => rfl
  rw [← hprofile, hscope]
  rfl

/-! ## Clear sets -/

/-- If a set can be carried with a shape and is the same data as one that has been read with it, no
entry of it stands under the key of a fixed field. -/
theorem ExtensionSet.Portable.clear {set back : ExtensionSet} {f : Form} {fixed : List FieldKey}
    {shape? : Option ExtensionShape} (h : set.Portable shape?) (hsame : (back == set) = true)
    (hback : ∀ key ∈ back.entries.keys, ∃ shape, shape? = some shape ∧ ∃ z ∈ shape.fields,
      z.key = key ∧ ∀ k ∈ fixed, f.keyOf k ≠ f.keyOf z.wire) : set.Clear f fixed := by
  intro z hz k hk
  obtain ⟨shape, hshape, hmem, hcontains⟩ := mem_held.1 hz
  obtain ⟨value, hvalue⟩ := Option.isSome_iff_exists.1 hcontains
  have hentry := Keyed.mem_of_find? hvalue
  have hforce : shape? = some shape := by
    rw [← h.bound (List.ne_nil_of_mem hentry), hshape]
  have hread : z.key ∈ back.entries.keys :=
    (keys_perm_of_beq hsame).mem_iff.2 (List.mem_map_of_mem hentry)
  obtain ⟨shape', hshape', w, hw, hwkey, hfree⟩ := hback _ hread
  obtain rfl : shape = shape' := Option.some.inj (hforce.symm.trans hshape')
  -- The field that was read is the one that is written, as it has the same key for programs.
  have hdistinct := h.built.wellFormed.distinct shape hshape
  obtain rfl : w = z := List.inj_on_of_nodup_map hdistinct.keys hw hmem hwkey
  exact hfree k hk

/-- If a record comes back, no entry of a set in it stands under the key of a fixed field. Which
value it is read from does not matter. -/
theorem RecordKind.clear_of_decode (k : RecordKind) {f : Form} {c : Codec} {reg : Registry}
    {x y : k.Carrier} (hx : Graph.Portable x f (c.scope reg)) {v : f.Value} {n : Nat}
    (hread : Record.decode f (c.scope reg) v = ⟨n, .ok y⟩) (hsame : (y == x) = true) :
    Graph.Clear x f := by
  have hsets := k.everySet_like hsame (k.asRead_of_decode hread).everySet
  rw [k.bindings_codecFor hread hsame] at hsets
  intro p hp
  cases p with
  | extensions point set =>
    obtain ⟨back, hback, hasRead⟩ := hsets _ hp
    refine (hx _ hp : set.Portable _).clear hback ?_
    rcases hasRead with hasRead | ⟨-, rfl⟩
    · exact hasRead.apart
    · exact fun _ hkey => absurd hkey List.not_mem_nil
  | _ => trivial

/-! ## A shape that shadows a name -/

/-- A shape with the slot and the name of the names of measured values. -/
def nameShape : ExtensionShape := ⟨[.plain "name" 11 .string]⟩

/-- The shape is bound to a new point, which goes by the name of the point of measured values but
has no table of their fixed fields. -/
def shadowSetup : List SetupCall := [.bind (.own "mval" []) nameShape]

/-- What the setup makes of the base registry. -/
def shadowRegistry : Registry := Registry.withBuiltins.attempts shadowSetup

/-- What a codec of the registry decodes with. -/
def shadowScope : Scope := (Codec.ofRegistry shadowRegistry).scope shadowRegistry

/-- A measured value with a name, and with another one in its extensions. -/
def shadowedMval : Mval where
  name := some "part"
  extensions := (ExtensionSet.bound nameShape).put "name" (.string "spare")

/-- Measured values are found under the shape, and this one has it. -/
theorem portable_shadowedMval (f : Form) : Graph.Portable shadowedMval f shadowScope := by
  have hshape : ExtensionShape.ofFields nameShape.fields = .ok nameShape := rfl
  have hset : (ExtensionSet.empty.bind nameShape).set "name" (.string "spare") =
    .ok shadowedMval.extensions := rfl
  refine List.forall_mem_singleton.2 ⟨.set (.bind .empty hshape) hset, fun e he => ?_, fun _ => rfl⟩
  obtain rfl := List.mem_singleton.1 he
  trivial

end Rim
