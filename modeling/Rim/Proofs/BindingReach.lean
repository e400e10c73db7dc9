import Rim.Profile.Basic
import Rim.Proofs.Extension.Map
import Rim.Proofs.Extension.Run
import Rim.Proofs.Record.Layout

/-!
# Binding reaches the whole graph and nothing else

* `Part.BoundBy`: what binding may do to a part: a set whose point is declared takes the shape of
  the map, and everything else stays.
* `Graph.BoundBy`: a graph differs from another one by that alone.
* `Graph.Reached`: binding makes the one graph that does so, and is done after one pass.
* `Profile.Provides`: what that means for the records that a profile makes.
* `binding_reaches_every_set`: graphs of all kinds are reached, whatever the map.
-/

namespace Rim

variable {m : ExtensionMap}

/-! ## Sets -/

namespace ExtensionSet

/-- What is left of a set under a shape is determined. -/
theorem Rebound.unique {set a b : ExtensionSet} {shape : ExtensionShape}
    (ha : set.Rebound shape a) (hb : set.Rebound shape b) : a = b := by
  ext1
  · exact ha.shape_eq.trans hb.shape_eq.symm
  · refine Keyed.eq_of_find? a.sorted b.sorted fun key => Option.ext fun value => ?_
    rw [← get_eq_ok_iff, ← get_eq_ok_iff, ha.kept, hb.kept]

theorem WellFormed.boundTo_bind {set : ExtensionSet} (h : set.WellFormed) (shape : ExtensionShape) :
    (set.bind shape).BoundTo (some shape) :=
  ⟨set.shape_bind shape, h.rebindable.twice shape⟩

/-- A set is settled once it has been given the shape of the map. -/
theorem WellFormed.settled_bindOptional {set : ExtensionSet} (h : set.WellFormed)
    (point : ExtensionPoint) : (set.bindOptional (m.find? point)).Settled m point := by
  unfold Settled
  cases m.find? point with
  | none => rfl
  | some shape => exact (h.boundTo_bind shape).rebind

end ExtensionSet

/-! ## Parts -/

namespace Part

/-- What binding may make of a part of a graph. -/
inductive BoundBy (m : ExtensionMap) : Part → Part → Prop where
  /-- A set whose point is declared takes the shape, with the entries that both shapes declare. -/
  | declared {point : ExtensionPoint} {set next : ExtensionSet} {shape : ExtensionShape} :
      m.find? point = some shape → set.Rebound shape next →
      BoundBy m (.extensions point set) (.extensions point next)
  /-- Any other set stays. -/
  | undeclared {point : ExtensionPoint} {set : ExtensionSet} : m.find? point = none →
      BoundBy m (.extensions point set) (.extensions point set)
  | choice (family : Family) (value : ChoiceValue) :
      BoundBy m (.choice family value) (.choice family value)
  | time (t : Instant) : BoundBy m (.time t) (.time t)
  | profile (id : ProfileId) : BoundBy m (.profile id) (.profile id)

theorem boundBy_bind {p : Part} (h : p.SetHas fun _ set => set.Built) : BoundBy m p (p.bind m) := by
  cases p with
  | extensions point set =>
    have hset : set.Built := h
    show BoundBy m _ (.extensions point (set.bindOptional (m.find? point)))
    cases hfind : m.find? point with
    | none => exact .undeclared hfind
    | some shape => exact .declared hfind (hset.wellFormed.rebound shape)
  | choice family value => exact .choice family value
  | time t => exact .time t
  | profile id => exact .profile id

/-- Nothing but binding does that to a part. -/
theorem BoundBy.eq_bind {p q : Part} (h : BoundBy m p q) (hp : p.SetHas fun _ set => set.Built) :
    q = p.bind m := by
  cases h with
  | @declared point set next shape hfind hnext =>
    have hset : set.Built := hp
    obtain rfl : next = set.bind shape := hnext.unique (hset.wellFormed.rebound shape)
    rw [Part.bind, hfind]
    rfl
  | @undeclared point set hfind =>
    rw [Part.bind, hfind]
    rfl
  | choice family value => rfl
  | time t => rfl
  | profile id => rfl

theorem eq_map_bind {ps qs : List Part} (h : List.Forall₂ (BoundBy m) ps qs)
    (hps : ∀ p ∈ ps, p.SetHas fun _ set => set.Built) : qs = ps.map (Part.bind m) := by
  induction h with
  | nil => rfl
  | cons hhead _ ih =>
    obtain ⟨hp, hps⟩ := List.forall_mem_cons.1 hps
    rw [List.map_cons, ← hhead.eq_bind hp, ← ih hps]

end Part

/-! ## Graphs -/

namespace Graph

variable {R : Type} [Graph R]

/-- A graph is another one in which some sets have taken the shapes of a map. -/
structure BoundBy (m : ExtensionMap) (r next : R) : Prop where
  /-- The sets and the other parts of the two come in the same order. -/
  parts : List.Forall₂ (Part.BoundBy m) (Graph.parts r) (Graph.parts next)
  /-- All else is the same: the fixed fields, and the lists with their lengths and orders. -/
  rest : strip next = strip r

/-- What binding does to a graph. -/
structure Reached [Extensible R] (m : ExtensionMap) (r : R) : Prop where
  bound : BoundBy m r (Extensible.bind m r)
  /-- No other graph is bound so. -/
  only : ∀ next : R, BoundBy m r next → next = Extensible.bind m r
  again : Extensible.bind m (Extensible.bind m r) = Extensible.bind m r

variable [Extensible R] [LawfulExtensible R] {r : R}

open LawfulExtensible (parts_bind strip_bind)

theorem boundBy_bind (h : EverySet (fun _ set => set.Built) r) :
    BoundBy m r (Extensible.bind m r) where
  parts := by
    rw [parts_bind, List.forall₂_map_right_iff, List.forall₂_same]
    exact fun p hp => Part.boundBy_bind (h p hp)
  rest := strip_bind m r

theorem BoundBy.eq_bind [ToldGraph R] {next : R} (hbound : BoundBy m r next)
    (h : EverySet (fun _ set => set.Built) r) : next = Extensible.bind m r := by
  have hstrip : strip next = strip (Extensible.bind m r) := hbound.rest.trans (strip_bind m r).symm
  have hparts : Graph.parts next ++ [] = Graph.parts (Extensible.bind m r) ++ [] := by
    rw [parts_bind, Part.eq_map_bind hbound.parts h]
  exact (ToldGraph.told hstrip hparts).1

theorem reached [ToldGraph R] (h : EverySet (fun _ set => set.Built) r) : Reached m r where
  bound := boundBy_bind h
  only _ hbound := hbound.eq_bind h
  again := by
    rw [bind_eq_self_iff, everySet_bind_iff]
    exact h.imp fun point _ hset => hset.wellFormed.settled_bindOptional point

/-- Where all sets are empty, each has the shape of the map afterwards, or none. -/
theorem bound_bind (h : EverySet (fun _ set => set = .empty) r) :
    Bound m (Extensible.bind m r) := by
  unfold Bound
  rw [everySet_bind_iff]
  refine h.imp fun point set hset => ?_
  rw [hset]
  exact ExtensionSet.boundTo_bindOptional _

/-- Where sets have been in use, each has the shape of the map afterwards, if there is one. -/
theorem declared_bind (h : EverySet (fun _ set => set.Built) r) :
    EverySet (fun point set => ∀ shape, m.find? point = some shape → set.BoundTo (some shape))
      (Extensible.bind m r) := by
  rw [everySet_bind_iff]
  refine h.imp fun point set hset shape hshape => ?_
  rw [hshape]
  exact hset.wellFormed.boundTo_bind shape

end Graph

/-! ## Profiles -/

namespace Profile

/-- The sets of the template, if there is one, have been made by the operations. -/
def TemplateBuilt (p : Profile) : Prop :=
  ∀ c, p.template = some c → Graph.EverySet (fun _ set => set.Built) c

/-- What is known of the records that a profile makes. -/
structure Provides (p : Profile) : Prop where
  /-- The tag is the template, bound. -/
  tag : Graph.BoundBy p.shapes (p.template.getD Record.empty) p.newTag
  tagSets : Graph.EverySet
    (fun point set => ∀ shape, p.shapes.find? point = some shape → set.BoundTo (some shape))
    p.newTag
  /-- The manifest holds nothing but the name of the profile. -/
  corim : Graph.BoundBy p.shapes { (Record.empty : UnsignedCorim) with profile := some p.id }
    p.newCorim
  corimSets : Graph.Bound p.shapes p.newCorim
  record : ∀ k : RecordKind, Graph.BoundBy p.shapes Record.empty (p.newRecord k.Carrier)
  recordSets : ∀ k : RecordKind, Graph.Bound p.shapes (p.newRecord k.Carrier)

theorem TemplateBuilt.provides {p : Profile} (h : p.TemplateBuilt) : p.Provides := by
  have hempty (k : RecordKind) :
      Graph.EverySet (fun _ set => set = .empty) (Record.empty : k.Carrier) :=
    k.everySet_empty fun _ => rfl
  have hbuilt {R : Type} [Graph R] {r : R} (hr : Graph.EverySet (fun _ set => set = .empty) r) :
      Graph.EverySet (fun _ set => set.Built) r :=
    hr.imp fun _ set hset => hset ▸ .empty
  have htag : Graph.EverySet (fun _ set => set.Built) (p.template.getD Record.empty) := by
    cases htemplate : p.template with
    | none => exact hbuilt (hempty .comid)
    | some c => exact h c htemplate
  -- To name a profile is to bind no set.
  have hcorim : Graph.EverySet (fun _ set => set = .empty)
      { (Record.empty : UnsignedCorim) with profile := some p.id } := by
    have hsets := (UnsignedCorim.everySet_iff Record.empty).1 (hempty .unsignedCorim)
    exact (UnsignedCorim.everySet_iff _).2 hsets
  exact {
    tag := Graph.boundBy_bind htag
    tagSets := Graph.declared_bind htag
    corim := Graph.boundBy_bind (hbuilt hcorim)
    corimSets := Graph.bound_bind hcorim
    record k := Graph.boundBy_bind (hbuilt (hempty k))
    recordSets k := Graph.bound_bind (hempty k) }

end Profile

/-- Take any map, and any graph whose sets have been made by the operations. Binding gives every set
whose point is declared, also under another name, the shape of the map, with the entries that the
old and the new shape declare with one type. It leaves all else as it is, and doing it again changes
nothing. So the records that a profile makes are bound throughout. -/
theorem binding_reaches_every_set (m : ExtensionMap) :
    (∀ (k : RecordKind) (r : k.Carrier), Graph.EverySet (fun _ set => set.Built) r →
      Graph.Reached m r ∧
        ∀ part, AnyRecord.Within ⟨k, k.rebind m r⟩ part →
          ∀ shape, Record.shape? part.1.Carrier m = some shape →
            (Record.ownSet part.2).BoundTo (some shape)) ∧
    (∀ t : ValueTriple, Graph.EverySet (fun _ set => set.Built) t → Graph.Reached m t) ∧
    (∀ (before : ExtensionMap) (given : ExtensionPoint) (shape : ExtensionShape),
      before.add given shape = .ok m ∨ before.replace given shape = .ok m →
      ∀ point, point.canonical = given.canonical →
        ∃ s, m.find? point = some s ∧ s.same shape = true) ∧
    ∀ p : Profile, p.TemplateBuilt → p.Provides := by
  refine ⟨fun k r h => ⟨Graph.reached h, ?_⟩, fun t h => Graph.reached h, ?_, ?_⟩
  · intro part hpart shape hshape
    obtain ⟨point, hpoint, hfind⟩ := Option.bind_eq_some_iff.1 hshape
    exact hpart.ownSet_has (Graph.declared_bind (R := k.Carrier) h) point hpoint shape hfind
  · intro before given shape h point hpoint
    exact ExtensionMap.exists_find?_of_declared h hpoint
  · exact fun p h => h.provides

/-- Levels are texts in measurement values, which are named by a synonym. -/
def spokenMap : ExtensionMap :=
  (ExtensionMap.empty.replace .referenceValue ⟨spokenFields⟩).toOption.getD .empty

/-- A tag with a measurement that has a set of extensions. -/
def measuredTag (set : ExtensionSet) : Comid :=
  let measurement : Measurement := { value := some { extensions := set } }
  { triples := { referenceValues := [{ measurements := [measurement] }] } }

/-- A set with a note and a level in a measurement keeps the note. -/
theorem binding_reaches_every_set_measured :
    let tag := measuredTag (.changes .empty noteChanges)
    let spoken : ExtensionSet := ⟨some ⟨spokenFields⟩, [("note", .string "wet")], by decide⟩
    Graph.Reached spokenMap tag ∧ Extensible.bind spokenMap tag = measuredTag spoken ∧
      spoken.BoundTo (some ⟨spokenFields⟩) ∧
      (∃ s, spokenMap.find? .mval = some s ∧ s.same ⟨spokenFields⟩ = true) ∧
      Profile.Provides ⟨.uri "tag:notes", spokenMap, some tag⟩ := by
  intro tag spoken
  obtain ⟨hkinds, -, hnames, hprofiles⟩ := binding_reaches_every_set spokenMap
  have hset : (ExtensionSet.changes .empty noteChanges).Built :=
    ExtensionSet.Built.empty.changes built_of_mem_noteChanges
  have hbuilt : Graph.EverySet (fun _ set => set.Built) tag := by
    refine (Comid.everySet_iff _).2 ⟨⟨List.forall_mem_nil _, ?_⟩, .empty⟩
    refine (Triples.everySet_iff _).2 ⟨⟨?_, List.forall_mem_nil _⟩, .empty⟩
    refine List.forall_mem_singleton.2 ((ValueTriple.everySet_iff _).2 ⟨?_, ?_⟩)
    · exact (Environment.everySet_iff _).2 nofun
    · refine List.forall_mem_singleton.2 ((Measurement.everySet_iff _).2 ?_)
      rintro _ ⟨⟩
      exact (Mval.everySet_iff _).2 hset
  obtain ⟨hreached, hwithin⟩ := hkinds .comid tag hbuilt
  refine ⟨hreached, rfl, ?_, hnames .empty .referenceValue _ (.inr rfl) .mval rfl, ?_⟩
  · -- The set is that of a record four levels down.
    have hmval : AnyRecord.Within ⟨.comid, measuredTag spoken⟩ ⟨.mval, { extensions := spoken }⟩ :=
      .tail (.tail (.single (.triples rfl)) (.measurement (.inl (List.mem_singleton.2 rfl))
        (List.mem_singleton.2 rfl))) (.mval rfl)
    exact hwithin _ hmval _ rfl
  · refine hprofiles _ ?_
    rintro _ ⟨⟩
    exact hbuilt

end Rim
