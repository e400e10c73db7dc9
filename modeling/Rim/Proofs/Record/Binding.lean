import Rim.Proofs.Record.Bound
import Rim.Proofs.Record.Shed

/-!
# Binding a graph, part by part

* `Part.bind`: what binding does to a part of a graph.
* `ToldGraph`: a graph is told by its parts and by what is left of it without its extension sets.
* `LawfulExtensible`: binding a graph binds every part of it and leaves the rest as it is.
* `Graph.everySet_bind_iff`, `Graph.bind_eq_self_iff`: what that means for the sets of the graph.
* `RecordKind.rebind`: binding the graphs of every kind of record.
-/

namespace Rim

variable {m : ExtensionMap}

/-! ## Parts -/

/-- Giving a set the shape of a map again changes nothing. -/
abbrev ExtensionSet.Settled (m : ExtensionMap) (point : ExtensionPoint) (set : ExtensionSet) :
    Prop :=
  set.bindOptional (m.find? point) = set

theorem map_eq_self_iff {α : Type} {g : α → α} {xs : List α} :
    xs.map g = xs ↔ ∀ x ∈ xs, g x = x := by
  simpa using List.map_inj_left (l := xs) (f := g) (g := id)

namespace Part

/-- A set gets the shape that the map holds for its point, if there is one. -/
def bind (m : ExtensionMap) : Part → Part
  | .extensions point set => .extensions point (set.bindOptional (m.find? point))
  | p => p

theorem bind_eq_self_iff {p : Part} : p.bind m = p ↔ p.SetHas (ExtensionSet.Settled m) := by
  cases p <;> simp [Part.bind, SetHas, ExtensionSet.Settled]

/-- Binding some parts changes nothing exactly if it changes none of the sets. -/
theorem map_bind_eq_self_iff {ps : List Part} :
    ps.map (Part.bind m) = ps ↔ ∀ p ∈ ps, p.SetHas (ExtensionSet.Settled m) := by
  rw [map_eq_self_iff]
  exact forall₂_congr fun p _ => bind_eq_self_iff

theorem setHas_bind {P : ExtensionPoint → ExtensionSet → Prop} {p : Part} :
    (p.bind m).SetHas P ↔
      p.SetHas fun point set => P point (set.bindOptional (m.find? point)) := by
  cases p <;> exact Iff.rfl

end Part

/-! ## Graphs that are told by their parts -/

theorem Entity.parts_eq (e : Entity) : Graph.parts e =
    e.name.toList.map (Part.choice .entityName) ++ [.extensions .entities e.extensions] := rfl

theorem Class.parts_eq (c : Class) : Graph.parts c =
    c.classId.toList.map (Part.choice .classId) ++ [.extensions .classes c.extensions] := rfl

theorem ValueTriple.parts_eq (t : ValueTriple) : Graph.parts t =
    Graph.parts t.environment ++ t.measurements.flatMap Graph.parts := rfl

theorem Triples.parts_eq (t : Triples) : Graph.parts t =
    t.referenceValues.flatMap Graph.parts ++ t.endorsedValues.flatMap Graph.parts ++
      [.extensions .triples t.extensions] := rfl

theorem Comid.parts_eq (c : Comid) : Graph.parts c =
    c.tagIdentity.toList.flatMap Graph.parts ++ c.entities.flatMap Graph.parts ++
      Graph.parts c.triples ++ [.extensions .comids c.extensions] := rfl

theorem UnsignedCorim.parts_eq (x : UnsignedCorim) : Graph.parts x =
    x.id.toList.map (Part.choice .corimId) ++ x.tags.flatMap Graph.parts ++
      x.profile.toList.map .profile ++ x.rimValidity.toList.flatMap Graph.parts ++
        x.entities.flatMap Graph.parts ++ [.extensions .corims x.extensions] := rfl

/-- A record graph is told by its parts and by what is left of it without its extension sets, also
if further parts follow its own. -/
class ToldGraph (R : Type) [Graph R] : Prop where
  told : ∀ {r r' : R} {rest rest' : List Part}, Graph.strip r = Graph.strip r' →
    Graph.parts r ++ rest = Graph.parts r' ++ rest' → r = r' ∧ rest = rest'

section

variable {R : Type} [Graph R] {rest rest' : List Part}

theorem told_of_strip_eq_self (h : ∀ r : R, Graph.strip r = r) : ToldGraph R where
  told {r r' rest rest'} hstrip hparts := by
    rw [h, h] at hstrip
    subst hstrip
    exact ⟨rfl, List.append_cancel_left hparts⟩

theorem told_set {point : ExtensionPoint} {set set' : ExtensionSet}
    (h : [Part.extensions point set] ++ rest = [Part.extensions point set'] ++ rest') :
    set = set' ∧ rest = rest' := by
  simpa using h

theorem told_list [ToldGraph R] {rs rs' : List R}
    (hstrip : rs.map Graph.strip = rs'.map Graph.strip)
    (hparts : rs.flatMap Graph.parts ++ rest = rs'.flatMap Graph.parts ++ rest') :
    rs = rs' ∧ rest = rest' := by
  induction rs generalizing rs' with
  | nil =>
    obtain rfl := List.map_eq_nil_iff.1 hstrip.symm
    exact ⟨rfl, hparts⟩
  | cons r rs ih =>
    cases rs' with
    | nil => cases hstrip
    | cons r' rs' =>
      obtain ⟨hhead, htail⟩ := List.cons.inj hstrip
      simp only [List.flatMap_cons, List.append_assoc] at hparts
      obtain ⟨rfl, hothers⟩ := ToldGraph.told hhead hparts
      obtain ⟨rfl, hrest⟩ := ih htail hothers
      exact ⟨rfl, hrest⟩

theorem told_option [ToldGraph R] {r? r'? : Option R}
    (hstrip : r?.map Graph.strip = r'?.map Graph.strip)
    (hparts : r?.toList.flatMap Graph.parts ++ rest = r'?.toList.flatMap Graph.parts ++ rest') :
    r? = r'? ∧ rest = rest' := by
  cases r? with
  | none =>
    cases r'? with
    | none => exact ⟨rfl, hparts⟩
    | some r' => cases hstrip
  | some r =>
    cases r'? with
    | none => cases hstrip
    | some r' =>
      have hsingle : [r].map Graph.strip = [r'].map Graph.strip := congrArg Option.toList hstrip
      obtain ⟨heq, hrest⟩ := told_list hsingle hparts
      exact ⟨congrArg List.head? heq, hrest⟩

end

instance : ToldGraph TagIdentity := told_of_strip_eq_self fun _ => rfl

instance : ToldGraph Version := told_of_strip_eq_self fun _ => rfl

instance : ToldGraph Validity := told_of_strip_eq_self fun _ => rfl

instance : ToldGraph Signer := told_of_strip_eq_self fun _ => rfl

instance : ToldGraph Meta := told_of_strip_eq_self fun _ => rfl

instance : ToldGraph Entity where
  told {e e' rest rest'} hstrip hparts := by
    obtain ⟨name, regId, roles, set⟩ := e
    obtain ⟨name', regId', roles', set'⟩ := e'
    obtain ⟨rfl, rfl, rfl, -⟩ := Entity.mk.inj hstrip
    simp only [Entity.parts_eq, List.append_assoc] at hparts
    obtain ⟨rfl, hrest⟩ := told_set (List.append_cancel_left hparts)
    exact ⟨rfl, hrest⟩

instance : ToldGraph Class where
  told {c c' rest rest'} hstrip hparts := by
    obtain ⟨classId, vendor, model, layer, index, set⟩ := c
    obtain ⟨classId', vendor', model', layer', index', set'⟩ := c'
    obtain ⟨rfl, rfl, rfl, rfl, rfl, -⟩ := Class.mk.inj hstrip
    simp only [Class.parts_eq, List.append_assoc] at hparts
    obtain ⟨rfl, hrest⟩ := told_set (List.append_cancel_left hparts)
    exact ⟨rfl, hrest⟩

instance : ToldGraph Environment where
  told {e e' rest rest'} hstrip hparts := by
    obtain ⟨hclass, hrest⟩ := told_option (Environment.mk.inj hstrip) hparts
    exact ⟨congrArg Environment.mk hclass, hrest⟩

instance : ToldGraph Mval where
  told {v v' rest rest'} hstrip hparts := by
    obtain ⟨version, svn, digests, serialNumber, name, set⟩ := v
    obtain ⟨version', svn', digests', serialNumber', name', set'⟩ := v'
    obtain ⟨rfl, rfl, rfl, rfl, rfl, -⟩ := Mval.mk.inj hstrip
    obtain ⟨rfl, hrest⟩ := told_set hparts
    exact ⟨rfl, hrest⟩

instance : ToldGraph Measurement where
  told {x x' rest rest'} hstrip hparts := by
    obtain ⟨hvalue, hrest⟩ := told_option (Measurement.mk.inj hstrip) hparts
    exact ⟨congrArg Measurement.mk hvalue, hrest⟩

instance : ToldGraph ValueTriple where
  told {t t' rest rest'} hstrip hparts := by
    obtain ⟨environment, measurements⟩ := t
    obtain ⟨environment', measurements'⟩ := t'
    obtain ⟨henvironment, hmeasurements⟩ := ValueTriple.mk.inj hstrip
    simp only [ValueTriple.parts_eq, List.append_assoc] at hparts
    obtain ⟨rfl, hbehind⟩ := ToldGraph.told henvironment hparts
    obtain ⟨rfl, hrest⟩ := told_list hmeasurements hbehind
    exact ⟨rfl, hrest⟩

instance : ToldGraph Triples where
  told {t t' rest rest'} hstrip hparts := by
    obtain ⟨reference, endorsed, set⟩ := t
    obtain ⟨reference', endorsed', set'⟩ := t'
    obtain ⟨hreference, hendorsed, -⟩ := Triples.mk.inj hstrip
    simp only [Triples.parts_eq, List.append_assoc] at hparts
    obtain ⟨rfl, hbehind⟩ := told_list hreference hparts
    obtain ⟨rfl, hset⟩ := told_list hendorsed hbehind
    obtain ⟨rfl, hrest⟩ := told_set hset
    exact ⟨rfl, hrest⟩

instance : ToldGraph Comid where
  told {c c' rest rest'} hstrip hparts := by
    obtain ⟨language, tagIdentity, entities, triples, set⟩ := c
    obtain ⟨language', tagIdentity', entities', triples', set'⟩ := c'
    obtain ⟨rfl, rfl, hentities, htriples, -⟩ := Comid.mk.inj hstrip
    simp only [Comid.parts_eq, List.append_assoc] at hparts
    obtain ⟨rfl, hbehind⟩ := told_list hentities (List.append_cancel_left hparts)
    obtain ⟨rfl, hset⟩ := ToldGraph.told htriples hbehind
    obtain ⟨rfl, hrest⟩ := told_set hset
    exact ⟨rfl, hrest⟩

instance : ToldGraph UnsignedCorim where
  told {x x' rest rest'} hstrip hparts := by
    obtain ⟨id, tags, profile, rimValidity, entities, set⟩ := x
    obtain ⟨id', tags', profile', rimValidity', entities', set'⟩ := x'
    obtain ⟨rfl, htags, rfl, rfl, hentities, -⟩ := UnsignedCorim.mk.inj hstrip
    simp only [UnsignedCorim.parts_eq, List.append_assoc] at hparts
    obtain ⟨rfl, hbehind⟩ := told_list htags (List.append_cancel_left hparts)
    obtain ⟨rfl, hset⟩ :=
      told_list hentities (List.append_cancel_left (List.append_cancel_left hbehind))
    obtain ⟨rfl, hrest⟩ := told_set hset
    exact ⟨rfl, hrest⟩

/-! ## Graphs that are bound part by part -/

/-- Binding a graph binds each of its parts, and leaves the rest as it is. -/
class LawfulExtensible (R : Type) [Graph R] [Extensible R] : Prop where
  parts_bind : ∀ (m : ExtensionMap) (r : R),
    Graph.parts (Extensible.bind m r) = (Graph.parts r).map (Part.bind m)
  strip_bind : ∀ (m : ExtensionMap) (r : R), Graph.strip (Extensible.bind m r) = Graph.strip r

open LawfulExtensible (parts_bind strip_bind)

section

variable {R : Type} [Graph R] [Extensible R] [LawfulExtensible R]

theorem parts_bind_list (rs : List R) : (rs.map (Extensible.bind m)).flatMap Graph.parts =
    (rs.flatMap Graph.parts).map (Part.bind m) := by
  simp only [List.flatMap_map, List.map_flatMap, parts_bind]

theorem parts_bind_option (r? : Option R) :
    (r?.map (Extensible.bind m)).toList.flatMap Graph.parts =
      (r?.toList.flatMap Graph.parts).map (Part.bind m) := by
  rw [Option.toList_map, parts_bind_list]

theorem strip_bind_list (rs : List R) :
    (rs.map (Extensible.bind m)).map Graph.strip = rs.map Graph.strip := by
  simp only [List.map_map, Function.comp_def, strip_bind]

theorem strip_bind_option (r? : Option R) :
    (r?.map (Extensible.bind m)).map Graph.strip = r?.map Graph.strip := by
  simp only [Option.map_map, Function.comp_def, strip_bind]

end

/-- Where nothing is bound, there must be nothing to bind. -/
theorem lawfulExtensible_id {R : Type} [Graph R]
    (hsets : ∀ m (r : R), Graph.EverySet (ExtensionSet.Settled m) r) :
    @LawfulExtensible R _ ⟨fun _ => id⟩ :=
  @LawfulExtensible.mk R _ ⟨fun _ => id⟩ (fun m r => (Part.map_bind_eq_self_iff.2 (hsets m r)).symm)
    fun _ _ => rfl

/-- Type choices are not bound. -/
theorem map_bind_choices (family : Family) (value? : Option ChoiceValue) :
    (value?.toList.map (Part.choice family)).map (Part.bind m) =
      value?.toList.map (Part.choice family) :=
  Part.map_bind_eq_self_iff.2 ((Part.everySet_choices family value?).2 trivial)

instance : LawfulExtensible Entity where
  parts_bind m e := by
    rw [e.parts_eq, List.map_append, map_bind_choices]
    rfl
  strip_bind _ _ := rfl

instance : LawfulExtensible Class where
  parts_bind m c := by
    rw [c.parts_eq, List.map_append, map_bind_choices]
    rfl
  strip_bind _ _ := rfl

instance : LawfulExtensible Environment where
  parts_bind _ e := parts_bind_option e.class_
  strip_bind _ e := congrArg Environment.mk (strip_bind_option e.class_)

instance : LawfulExtensible Mval where
  parts_bind _ _ := rfl
  strip_bind _ _ := rfl

instance : LawfulExtensible Measurement where
  parts_bind _ x := parts_bind_option x.value
  strip_bind _ x := congrArg Measurement.mk (strip_bind_option x.value)

instance : LawfulExtensible ValueTriple where
  parts_bind m t := by
    rw [t.parts_eq, List.map_append, ← parts_bind, ← parts_bind_list]
    rfl
  strip_bind m t :=
    congrArg₂ ValueTriple.mk (strip_bind m t.environment) (strip_bind_list t.measurements)

instance : LawfulExtensible Triples where
  parts_bind m t := by
    rw [t.parts_eq, List.map_append, List.map_append, ← parts_bind_list, ← parts_bind_list]
    rfl
  strip_bind m t :=
    congrArg₂ (Triples.mk · · .empty) (strip_bind_list t.referenceValues)
      (strip_bind_list t.endorsedValues)

instance : LawfulExtensible Comid where
  parts_bind m c := by
    have hidentity : (c.tagIdentity.toList.flatMap Graph.parts).map (Part.bind m) =
        c.tagIdentity.toList.flatMap Graph.parts :=
      Part.map_bind_eq_self_iff.2 ((Graph.everySet_option _).2 fun t _ => t.everySet)
    rw [c.parts_eq, List.map_append, List.map_append, List.map_append, hidentity, ← parts_bind_list,
      ← parts_bind]
    rfl
  strip_bind m c :=
    congrArg₂ (Comid.mk c.language c.tagIdentity · · .empty) (strip_bind_list c.entities)
      (strip_bind m c.triples)

instance : LawfulExtensible UnsignedCorim where
  parts_bind m x := by
    have hprofile : (x.profile.toList.map Part.profile).map (Part.bind m) =
        x.profile.toList.map Part.profile :=
      Part.map_bind_eq_self_iff.2 (by simp [Part.SetHas])
    have hvalidity : (x.rimValidity.toList.flatMap Graph.parts).map (Part.bind m) =
        x.rimValidity.toList.flatMap Graph.parts :=
      Part.map_bind_eq_self_iff.2 ((Graph.everySet_option _).2 fun w _ => w.everySet)
    rw [x.parts_eq, List.map_append, List.map_append, List.map_append, List.map_append,
      List.map_append, map_bind_choices, hprofile, hvalidity, ← parts_bind_list, ← parts_bind_list]
    rfl
  strip_bind m x :=
    congrArg₂ (UnsignedCorim.mk x.id · x.profile x.rimValidity · .empty) (strip_bind_list x.tags)
      (strip_bind_list x.entities)

/-! ## What follows for whole graphs -/

namespace Graph

variable {R : Type} [Graph R] [Extensible R] [LawfulExtensible R]
  {P : ExtensionPoint → ExtensionSet → Prop}

/-- What holds of the sets of a bound graph holds of what binding makes of its sets. -/
theorem everySet_bind_iff {r : R} :
    EverySet P (Extensible.bind m r) ↔
      EverySet (fun point set => P point (set.bindOptional (m.find? point))) r := by
  unfold EverySet
  rw [parts_bind, List.forall_mem_map]
  exact forall₂_congr fun p _ => Part.setHas_bind

/-- Binding a graph changes nothing exactly if it changes none of the sets. -/
theorem bind_eq_self_iff [ToldGraph R] {r : R} :
    Extensible.bind m r = r ↔ EverySet (ExtensionSet.Settled m) r := by
  constructor
  · intro h
    refine Part.map_bind_eq_self_iff.1 ?_
    rw [← parts_bind, h]
  · intro h
    have hparts : parts (Extensible.bind m r) ++ [] = parts r ++ [] := by
      rw [parts_bind, Part.map_bind_eq_self_iff.2 h]
    exact (ToldGraph.told (strip_bind m r) hparts).1

end Graph

/-! ## All kinds of records -/

namespace RecordKind

/-- A record with all it holds, given the shapes of a map again. Kinds of records without extensible
records in them have nothing to bind. -/
def rebind (m : ExtensionMap) : (k : RecordKind) → k.Carrier → k.Carrier
  | .comid => fun c : Comid => Extensible.bind m c
  | .entity => fun e : Entity => Extensible.bind m e
  | .triples => fun t : Triples => Extensible.bind m t
  | .environment => fun e : Environment => Extensible.bind m e
  | .class_ => fun c : Class => Extensible.bind m c
  | .measurement => fun x : Measurement => Extensible.bind m x
  | .mval => fun v : Mval => Extensible.bind m v
  | .unsignedCorim => fun x : UnsignedCorim => Extensible.bind m x
  | .tagIdentity | .version | .meta_ | .signer | .validity => id

instance (k : RecordKind) : Extensible k.Carrier := ⟨fun m r => k.rebind m r⟩

instance : (k : RecordKind) → ToldGraph k.Carrier
  | comid => inferInstanceAs (ToldGraph Comid)
  | tagIdentity => inferInstanceAs (ToldGraph TagIdentity)
  | entity => inferInstanceAs (ToldGraph Entity)
  | triples => inferInstanceAs (ToldGraph Triples)
  | environment => inferInstanceAs (ToldGraph Environment)
  | class_ => inferInstanceAs (ToldGraph Class)
  | measurement => inferInstanceAs (ToldGraph Measurement)
  | mval => inferInstanceAs (ToldGraph Mval)
  | version => inferInstanceAs (ToldGraph Version)
  | unsignedCorim => inferInstanceAs (ToldGraph UnsignedCorim)
  | meta_ => inferInstanceAs (ToldGraph Meta)
  | signer => inferInstanceAs (ToldGraph Signer)
  | validity => inferInstanceAs (ToldGraph Validity)

instance : (k : RecordKind) → LawfulExtensible k.Carrier
  | comid => inferInstanceAs (LawfulExtensible Comid)
  | entity => inferInstanceAs (LawfulExtensible Entity)
  | triples => inferInstanceAs (LawfulExtensible Triples)
  | environment => inferInstanceAs (LawfulExtensible Environment)
  | class_ => inferInstanceAs (LawfulExtensible Class)
  | measurement => inferInstanceAs (LawfulExtensible Measurement)
  | mval => inferInstanceAs (LawfulExtensible Mval)
  | unsignedCorim => inferInstanceAs (LawfulExtensible UnsignedCorim)
  -- The other kinds have no sets to bind.
  | tagIdentity => lawfulExtensible_id (R := TagIdentity) fun _ => TagIdentity.everySet
  | version => lawfulExtensible_id (R := Version) fun _ => Version.everySet
  | meta_ => lawfulExtensible_id (R := Meta) fun _ => Meta.everySet
  | signer => lawfulExtensible_id (R := Signer) fun _ => Signer.everySet
  | validity => lawfulExtensible_id (R := Validity) fun _ => Validity.everySet

end RecordKind

end Rim
