import Rim.Proofs.Record.Layout
import Rim.Proofs.Record.Octets
import Rim.Proofs.Validation.Walk

/-!
# Validation tells the first violation

* `Validation.tell`: the first of some violations as the outcome of a check.
* `Plan.check`: the checks that are made at a value, one after the other. `Comid.validate_eq` and
  its siblings: the checks of the base schema are made in the order of the walk.
* `Plan.Lawful`: in a plan a step leads to one place, and what is wrong with a value itself does not
  lie in one of its children.
* `first_violation_told`: a value passes its check exactly when the walk finds nothing, else the
  check tells what the walk finds first. Where the path of the violation leads into a child, the
  child tells the rest of it, and nothing is found in what comes before the child.
-/

namespace Rim

/-! ## Telling the first violation -/

/-- The first of what is found in a list is the first of what is found in one of its elements, and
nothing is found in those before it. -/
theorem exists_of_head?_flatMap {α β : Type} {found : α → List β} {xs : List α} {y : β}
    (h : (xs.flatMap found).head? = some y) :
    ∃ before x after, xs = before ++ x :: after ∧ (∀ z ∈ before, found z = []) ∧
      (found x).head? = some y := by
  induction xs with
  | nil => cases h
  | cons x rest ih =>
    rw [List.flatMap_cons] at h
    cases hx : found x with
    | nil =>
      rw [hx] at h
      obtain ⟨before, z, after, rfl, hbefore, hz⟩ := ih h
      exact ⟨x :: before, z, after, rfl, List.forall_mem_cons.2 ⟨hx, hbefore⟩, hz⟩
    | cons first others =>
      rw [hx] at h
      exact ⟨[], x, rest, rfl, nofun, by rw [hx]; exact h⟩

namespace Validation

/-- Tells the first of some violations. -/
def tell : List ValidationError → Validation
  | [] => .ok ()
  | e :: _ => .error e

theorem tell_append (es others : List ValidationError) :
    tell (es ++ others) = (tell es >>= fun _ => tell others) := by
  cases es <;> rfl

theorem inside_tell (step : PathSegment) (es : List ValidationError) :
    inside step (tell es) = tell (es.map (·.within step)) := by
  cases es <;> rfl

@[simp] theorem tell_violations (check : Validation) : tell check.violations = check := by
  cases check <;> rfl

@[simp] theorem tell_nil : tell [] = .ok () := rfl

@[simp] theorem tell_cons (e : ValidationError) (es : List ValidationError) :
    tell (e :: es) = .error e := rfl

@[simp] theorem require_true (e : ValidationError) : require true e = .ok () := rfl

@[simp] theorem require_false (e : ValidationError) : require false e = .error e := rfl

@[simp] theorem throw_eq (e : ValidationError) : (throw e : Validation) = .error e := rfl

@[simp] theorem tell_ite (b : Bool) (e : ValidationError) :
    tell (if b then [e] else []) = require (!b) e := by
  cases b <;> rfl

theorem tell_eq_ok_iff {es : List ValidationError} : tell es = .ok () ↔ es = [] := by
  cases es <;> simp [tell]

theorem tell_eq_error_iff {es : List ValidationError} {e : ValidationError} :
    tell es = .error e ↔ es.head? = some e := by
  cases es <;> simp [tell]

@[simp] theorem ok_bind (next : Unit → Validation) : (Except.ok () >>= next) = next () := rfl

@[simp] theorem error_bind (e : ValidationError) (next : Unit → Validation) :
    (Except.error e >>= next) = .error e := rfl

@[simp] theorem bind_ok (check : Validation) : (check >>= fun _ => .ok ()) = check := by
  cases check <;> rfl

/-- Checks that each tell the first of some violations tell the first of them all. -/
theorem forM_eq_tell {α : Type} {check : α → Validation} {found : α → List ValidationError}
    {xs : List α} (h : ∀ x ∈ xs, check x = tell (found x)) :
    xs.forM check = tell (xs.flatMap found) := by
  induction xs with
  | nil => rfl
  | cons x rest ih =>
    obtain ⟨hx, hrest⟩ := List.forall_mem_cons.1 h
    rw [List.flatMap_cons, tell_append, ← ih hrest, ← hx]
    rfl

theorem list_map {α β : Type} (name : String) (g : α → β) (check : β → Validation) (xs : List α) :
    list name check (xs.map g) = list name (fun x => check (g x)) xs := by
  have hfrom : ∀ i, listFrom name check i (xs.map g) =
      listFrom name (fun x => check (g x)) i xs := by
    induction xs with
    | nil => exact fun _ => rfl
    | cons x rest ih =>
      intro i
      rw [List.map_cons, listFrom, ih]
      rfl
  exact hfrom 0

end Validation

/-! ## One value -/

/-- The check that is made at a stop. -/
def Visit.check : Visit → Validation
  | .violation e => .error e
  | .child step node => Validation.inside step node.validate

theorem Visit.forM_violations (es : List ValidationError) :
    (es.map Visit.violation).forM Visit.check = Validation.tell es := by
  cases es <;> rfl

namespace Slot

/-- The checks that are made at a field. -/
def check (name : String) : Slot → Validation
  | .child node => Validation.optional name Node.validate node
  | .children nodes => Validation.list name Node.validate nodes
  | .content violations => Validation.tell violations

theorem forM_visits (name : String) (slot : Slot) :
    (slot.visits name).forM Visit.check = slot.check name := by
  cases slot with
  | child node =>
    cases node with
    | none => rfl
    | some node => exact Validation.bind_ok _
  | children nodes =>
    have hfrom : ∀ i, ((nodes.zipIdx i).map fun e =>
        Visit.child (.index name e.2) e.1).forM Visit.check =
        Validation.listFrom name Node.validate i nodes := by
      induction nodes with
      | nil => exact fun _ => rfl
      | cons node rest ih =>
        intro i
        rw [Validation.listFrom, ← ih]
        rfl
    exact hfrom 0
  | content violations => exact Visit.forM_violations violations

@[simp] theorem check_content_nil (name : String) : check name (.content []) = .ok () := rfl

@[simp] theorem check_child_none (name : String) : check name (.child none) = .ok () := rfl

@[simp] theorem check_child_some (name : String) (node : Node) :
    check name (.child (some node)) = Validation.field name node.validate := rfl

@[simp] theorem check_child_map {α : Type} (name : String) (node : α → Node) (x : Option α) :
    check name (.child (x.map node)) = Validation.optional name (fun a => (node a).validate) x := by
  cases x <;> rfl

@[simp] theorem check_children_map {α : Type} (name : String) (node : α → Node) (xs : List α) :
    check name (.children (xs.map node)) =
      Validation.list name (fun a => (node a).validate) xs :=
  Validation.list_map name node Node.validate xs

@[simp] theorem check_text (name : String) (s : Option String) :
    check name (.text name s) = Validation.nonEmpty name s := by
  by_cases h : s = some "" <;>
    simp [check, text, h, Validation.nonEmpty, Validation.tell, Validation.require]

@[simp] theorem check_uri (name : String) (s : Option String) :
    check name (.uri name s) = Validation.optionalUri name s := by
  cases s with
  | none => rfl
  | some s =>
    by_cases hempty : s = ""
    · simp [check, uri, hempty, Validation.optionalUri, Validation.tell]
    · by_cases habsolute : Uri.isAbsolute s <;>
        simp [check, uri, hempty, habsolute, Validation.optionalUri, Validation.tell,
          Validation.require]

/-- The first role that stands before already is the one that the check tells. -/
@[simp] theorem check_roles (name : String) (rs : Roles) :
    check name (.roles rs) = rs.validate := by
  have hfrom : ∀ before seen : Roles, (∀ r, r ∈ seen ↔ r ∈ before) →
      Validation.tell ((rs.zipIdx before.length).filterMap fun x =>
        if x.1 ∈ (before ++ rs).take x.2 then
          some ((ValidationError.invalid s!"duplicate role {x.1.name}").within (.index "roles" x.2))
        else none) = Roles.validateFrom seen before.length rs := by
    induction rs with
    | nil => exact fun _ _ _ => rfl
    | cons r rest ih =>
      intro before seen hseen
      rw [Roles.validateFrom, List.zipIdx_cons, List.filterMap_cons]
      by_cases hr : r ∈ before
      · simp [hr, (hseen r).2 hr, Validation.tell]
      · have hrest := ih (before ++ [r]) (r :: seen) fun x => by simp [hseen, or_comm]
        simpa [hr, hseen] using hrest
  exact hfrom [] [] fun _ => Iff.rfl

end Slot

/-- A set is checked in the order of its keys. -/
theorem ExtensionSet.forM_visits (set : ExtensionSet) :
    set.visits.forM Visit.check = set.validate := by
  rw [visits, inKeyOrder_eq, validate]
  induction set.entries with
  | nil => rfl
  | cons e rest ih =>
    simp only [List.map_cons, List.forM_eq_forM, List.forM_cons] at ih ⊢
    rw [ih]
    rfl

namespace Plan

/-- The checks that are made at a value, in the order of its plan. -/
def check (p : Plan) : Validation := do
  Validation.tell p.first
  p.fields.forM fun (name, slot) => slot.check name
  p.extensions.forM ExtensionSet.validate
  Validation.tell p.last

/-- A value that is not taken apart is checked as it checks itself. -/
theorem check_of_leaf (check : Validation) :
    Plan.check { first := check.violations } = check := by
  simp [Plan.check]

theorem forM_visits (p : Plan) : p.visits.forM Visit.check = p.check := by
  have hfields : (p.fields.flatMap fun (name, slot) => slot.visits name).forM Visit.check =
      p.fields.forM fun (name, slot) => slot.check name := by
    induction p.fields with
    | nil => rfl
    | cons x rest ih =>
      rw [List.flatMap_cons]
      simp only [List.forM_eq_forM, List.forM_append, List.forM_cons] at ih ⊢
      rw [ih, ← Slot.forM_visits]
      rfl
  have hextensions : (p.extensions.toList.flatMap (·.visits)).forM Visit.check =
      p.extensions.forM ExtensionSet.validate := by
    cases p.extensions with
    | none => rfl
    | some set => simpa using set.forM_visits
  have hfirst := Visit.forM_violations p.first
  have hlast := Visit.forM_violations p.last
  rw [visits, check]
  simp only [List.forM_eq_forM, List.forM_append] at hfields hextensions hfirst hlast ⊢
  rw [hfirst, hfields, hextensions, hlast]
  simp only [bind_assoc]

end Plan

/-! ## Records -/

namespace Record

variable {R : Type} [Record R]

theorem tell_nothingSet (message : String) (r : R) :
    Validation.tell (nothingSet message r) =
      Validation.require (!(present r).isEmpty || !(ownSet r).isEmpty) (.invalid message) := by
  rw [nothingSet, Validation.tell_ite, Bool.not_and]

end Record

/-! ## Kinds of records -/

theorem present?_eq_none_iff {α : Type} {xs : List α} :
    present? xs = none ↔ xs.isEmpty = true := by
  unfold present?
  split <;> simp_all

theorem TagIdentity.validate_eq (t : TagIdentity) :
    t.validate = (RecordKind.plan .tagIdentity t).check := by
  cases hid : t.tagId <;>
    simp [validate, RecordKind.plan, Plan.check, Record.missing, Record.fields, fields, Field.of,
      Node.validate, Validation.mandatory, hid]

theorem Entity.validate_eq (e : Entity) : e.validate = (RecordKind.plan .entity e).check := by
  cases hname : e.name <;> cases hroles : e.roles.isEmpty <;>
    simp [validate, RecordKind.plan, Plan.check, Record.missing, Record.fields, fields, Field.of,
      Node.validate, present?_eq_none_iff, hname, hroles, Record.ownSet?, Record.host]

theorem Class.isEmpty_present (c : Class) : (Record.present c).isEmpty = !c.hasField := by
  rw [Bool.eq_iff_iff]
  simp [Record.present, Record.fields, fields, Field.of, hasField, and_assoc]

theorem Class.validate_eq (c : Class) : c.validate = (RecordKind.plan .class_ c).check := by
  have hfirst := Record.tell_nothingSet "class must not be empty" c
  rw [isEmpty_present, Bool.not_not] at hfirst
  simp [validate, RecordKind.plan, Plan.check, Node.validate, Record.ownSet?, Record.host, hfirst]
  rfl

theorem Environment.validate_eq (e : Environment) :
    e.validate = (RecordKind.plan .environment e).check := by
  cases hclass : e.class_ <;>
    simp [validate, RecordKind.plan, Plan.check, Record.missing, Record.fields, fields, Field.of,
      Validation.mandatory, hclass]
  rfl

theorem Version.validate_eq (v : Version) : v.validate = (RecordKind.plan .version v).check := by
  cases hvalue : v.value <;>
    simp [validate, RecordKind.plan, Plan.check, Record.missing, Record.fields, fields, Field.of,
      hvalue]
  rfl

theorem Mval.isEmpty_present (m : Mval) : (Record.present m).isEmpty = !m.hasField := by
  rw [Bool.eq_iff_iff]
  simp [Record.present, Record.fields, fields, Field.of, hasField, and_assoc]

theorem Mval.validate_eq (m : Mval) : m.validate = (RecordKind.plan .mval m).check := by
  have hfirst := Record.tell_nothingSet "no measurement value set" m
  rw [isEmpty_present, Bool.not_not] at hfirst
  simp [validate, RecordKind.plan, Plan.check, Record.ownSet?, Record.host, hfirst]
  rfl

theorem Measurement.validate_eq (m : Measurement) :
    m.validate = (RecordKind.plan .measurement m).check := by
  cases hvalue : m.value <;>
    simp [validate, RecordKind.plan, Plan.check, Record.missing, Record.fields, fields, Field.of,
      Validation.mandatory, hvalue]
  rfl

theorem ValueTriple.validate_eq (t : ValueTriple) :
    t.validate = (Node.valueTriple t).plan.check := by
  simp only [Node.plan, Plan.check, Validation.tell_ite]
  simp [validate]
  rfl

theorem Triples.isEmpty_present (t : Triples) :
    (Record.present t).isEmpty = (t.referenceValues.isEmpty && t.endorsedValues.isEmpty) := by
  rw [Bool.eq_iff_iff]
  simp [Record.present, Record.fields, fields, Field.of, present?]

theorem Triples.validate_eq (t : Triples) : t.validate = (RecordKind.plan .triples t).check := by
  have hfirst := Record.tell_nothingSet "no triples" t
  rw [isEmpty_present] at hfirst
  simp [validate, isEmpty, RecordKind.plan, Plan.check, Record.ownSet?, Record.host, hfirst]
  rfl

theorem Comid.validate_eq (c : Comid) : c.validate = (RecordKind.plan .comid c).check := by
  cases hidentity : c.tagIdentity <;> cases htriples : c.triples.isEmpty <;>
    simp [validate, RecordKind.plan, Plan.check, Record.missing, Record.fields, fields, Field.of,
      hidentity, htriples, Record.ownSet?, Record.host]
  rfl

theorem UnsignedCorim.validate_eq (m : UnsignedCorim) :
    m.validate = (RecordKind.plan .unsignedCorim m).check := by
  cases hid : m.id <;> cases htags : m.tags.isEmpty <;>
    simp [validate, RecordKind.plan, Plan.check, Record.missing, Record.fields, fields, Field.of,
      present?_eq_none_iff, profileKey, hid, htags, Record.ownSet?, Record.host]
  rfl

theorem Signer.validate_eq (s : Signer) : s.validate = (RecordKind.plan .signer s).check := by
  cases hname : s.name <;>
    simp [validate, RecordKind.plan, Plan.check, Record.missing, Record.fields, fields, Field.of,
      hname]
  rfl

theorem Meta.validate_eq (m : Meta) : m.validate = (RecordKind.plan .meta_ m).check := by
  cases hsigner : m.signer <;>
    simp [validate, RecordKind.plan, Plan.check, Record.missing, Record.fields, fields, Field.of,
      Validation.mandatory, hsigner]
  rfl

theorem Validity.validate_eq (w : Validity) : w.validate = (RecordKind.plan .validity w).check := by
  cases hafter : w.notAfter <;> cases hbefore : w.notBefore <;>
    simp [validate, RecordKind.plan, Plan.check, Record.missing, Record.fields, fields, Field.of,
      disorder, Node.validate, hafter, hbefore]

theorem Digests.validate_eq (ds : Digests) : ds.validate = ds.plan.check := by
  simp only [Digests.plan, Plan.check, Validation.tell_ite]
  simp [validate]
  rfl

/-! ## Where a violation lies -/

/-- A step into a field: to the field itself, or to an element of the list in it. -/
def PathSegment.AtField (name : String) : PathSegment → Prop
  | .field n | .index n _ => n = name
  | _ => False

namespace Slot

/-- What is wrong with the content of a field lies in the field. -/
def Located (name : String) : Slot → Prop
  | .content es => ∀ e ∈ es, ∀ step rest, e.path = step :: rest → step.AtField name
  | _ => True

@[simp] theorem located_child (name : String) (node : Option Node) : Located name (.child node) :=
  trivial

@[simp] theorem located_children (name : String) (nodes : List Node) :
    Located name (.children nodes) := trivial

@[simp] theorem located_nil (name : String) : Located name (.content []) := nofun

@[simp] theorem located_text (name : String) (s : Option String) : Located name (.text name s) := by
  intro e he step rest hpath
  split at he
  · rw [List.mem_singleton.1 he] at hpath
    cases hpath
  · cases he

@[simp] theorem located_uri (name : String) (s : Option String) : Located name (.uri name s) := by
  cases s with
  | none => exact nofun
  | some s =>
    intro e he step rest hpath
    split at he
    · rw [List.mem_singleton.1 he] at hpath
      cases hpath
    · split at he
      · cases he
      · rw [List.mem_singleton.1 he] at hpath
        obtain ⟨rfl, -⟩ := List.cons.inj hpath
        rfl

@[simp] theorem located_roles (rs : Roles) : Located "roles" (.roles rs) := by
  intro e he step rest hpath
  obtain ⟨x, -, hx⟩ := List.mem_filterMap.1 he
  split at hx
  · rw [← Option.some.inj hx] at hpath
    obtain ⟨rfl, -⟩ := List.cons.inj hpath
    rfl
  · cases hx

end Slot

namespace Plan

/-- What makes a step lead to one place: fields have names of their own, and what is wrong with a
value itself does not lie in one of its children. -/
structure Lawful (p : Plan) : Prop where
  names : (p.fields.map (·.1)).Nodup
  own : ∀ e ∈ p.first ++ p.last, e.path = [] ∨ p.fields = [] ∧ p.extensions = none
  contents : ∀ x ∈ p.fields, x.2.Located x.1

variable {p : Plan}

theorem Lawful.slot?_of_mem (hp : p.Lawful) {x : String × Slot} (hx : x ∈ p.fields) :
    p.slot? x.1 = some x.2 := by
  rw [slot?, find?_of_nodup_map hp.names hx]
  rfl

/-- The step to a child leads to it. -/
theorem Lawful.childAt?_of_child (hp : p.Lawful) {step : PathSegment} {m : Node}
    (h : .child step m ∈ p.visits) : p.childAt? step = some (some m) := by
  simp only [visits, List.mem_append, List.mem_map, List.mem_flatMap, Option.mem_toList] at h
  rcases h with ((⟨_, -, heq⟩ | ⟨⟨name, slot⟩, hx, hslot⟩) | ⟨set, hset, he⟩) | ⟨_, -, heq⟩
  · cases heq
  · have hfound := hp.slot?_of_mem hx
    cases slot with
    | child node =>
      obtain ⟨node, hnode, heq⟩ := List.mem_map.1 hslot
      obtain ⟨rfl, rfl⟩ := Visit.child.inj heq
      simp only [childAt?, hfound, Option.mem_toList.1 hnode]
    | children nodes =>
      obtain ⟨⟨node, i⟩, hnode, heq⟩ := List.mem_map.1 hslot
      obtain ⟨rfl, rfl⟩ := Visit.child.inj heq
      simp only [childAt?, hfound, List.mem_zipIdx_iff_getElem?.1 hnode]
    | content es =>
      obtain ⟨_, -, heq⟩ := List.mem_map.1 hslot
      cases heq
  · obtain ⟨key, value, hentry, heq⟩ := ExtensionSet.mem_visits.1 he
    obtain ⟨rfl, rfl⟩ := Visit.child.inj heq
    simp [childAt?, hset, Keyed.find?_of_mem set.sorted hentry]
  · cases heq

/-- What is wrong with a value itself does not lie in one of its children. -/
theorem Lawful.childAt?_of_violation (hp : p.Lawful) {e : ValidationError}
    (h : .violation e ∈ p.visits) {step : PathSegment} {rest : List PathSegment}
    (hpath : e.path = step :: rest) : p.childAt? step = none := by
  have hown : e ∈ p.first ++ p.last → p.childAt? step = none := by
    intro he
    rcases hp.own e he with hnil | ⟨hfields, hextensions⟩
    · rw [hpath] at hnil
      cases hnil
    · cases step <;> simp [childAt?, slot?, hfields, hextensions]
  simp only [visits, List.mem_append, List.mem_map, List.mem_flatMap, Option.mem_toList] at h
  rcases h with ((⟨e', he, heq⟩ | ⟨⟨name, slot⟩, hx, hslot⟩) | ⟨set, -, he⟩) | ⟨e', he, heq⟩
  · obtain rfl := Visit.violation.inj heq
    exact hown (List.mem_append_left _ he)
  · have hfound := hp.slot?_of_mem hx
    cases slot with
    | child node =>
      obtain ⟨_, -, heq⟩ := List.mem_map.1 hslot
      cases heq
    | children nodes =>
      obtain ⟨_, -, heq⟩ := List.mem_map.1 hslot
      cases heq
    | content es =>
      obtain ⟨e', he, heq⟩ := List.mem_map.1 hslot
      obtain rfl := Visit.violation.inj heq
      have hat := hp.contents _ hx e' he step rest hpath
      cases step with
      | field n =>
        obtain rfl : n = name := hat
        simp only [childAt?, hfound]
      | index n i =>
        obtain rfl : n = name := hat
        simp only [childAt?, hfound]
      | extension key => exact hat.elim
      | variant typeTag => exact hat.elim
  · obtain ⟨_, _, -, heq⟩ := ExtensionSet.mem_visits.1 he
    cases heq
  · obtain rfl := Visit.violation.inj heq
    exact hown (List.mem_append_right _ he)

/-- The plan of a value that is not taken apart. -/
theorem lawful_of_leaf (es : List ValidationError) : Lawful { first := es } :=
  ⟨List.nodup_nil, fun _ _ => .inr ⟨rfl, rfl⟩,
    fun _ hx => absurd hx List.not_mem_nil⟩

end Plan

namespace Record

variable {R : Type} [Record R]

theorem path_missing {mandatory : List String} {r : R} {e : ValidationError}
    (h : e ∈ missing mandatory r) : e.path = [] := by
  obtain ⟨x, -, rfl⟩ := List.mem_map.1 h
  rfl

theorem path_nothingSet {message : String} {r : R} {e : ValidationError}
    (h : e ∈ nothingSet message r) : e.path = [] := by
  unfold nothingSet at h
  split at h
  · rw [List.mem_singleton.1 h]
    rfl
  · cases h

/-- The plan of a record that is gone through in declared order. -/
theorem lawful_plan [LawfulRecord R] {first : List ValidationError} {slot : R → String → Slot}
    {r : R} {extensions : Option ExtensionSet} (hfirst : ∀ e ∈ first, e.path = [])
    (hslots : ∀ x ∈ slots slot r, x.2.Located x.1) :
    Plan.Lawful { first, fields := slots slot r, extensions } where
  names := by
    have hnames := LawfulRecord.names (R := R)
    simpa [slots, Function.comp_def] using hnames
  own e he := .inl (hfirst e (by simpa using he))
  contents := hslots

end Record

theorem Validity.lawful_plan (w : Validity) : (RecordKind.plan .validity w).Lawful := by
  refine ⟨by simp [RecordKind.plan], fun e he => .inl ?_, by simp [RecordKind.plan]⟩
  rcases List.mem_append.1 he with he | he
  · exact Record.path_missing he
  · simp only [RecordKind.plan, disorder] at he
    split at he
    · split at he
      · rw [List.mem_singleton.1 he]
        rfl
      · cases he
    · cases he

theorem ValueTriple.lawful_plan (t : ValueTriple) : (Node.valueTriple t).plan.Lawful := by
  refine ⟨by simp [Node.plan], fun e he => .inl ?_, by simp [Node.plan]⟩
  simp only [Node.plan, List.append_nil] at he
  split at he
  · rw [List.mem_singleton.1 he]
    rfl
  · cases he

theorem Digests.lawful_plan (ds : Digests) : ds.plan.Lawful := by
  refine ⟨by simp [plan], fun e he => .inl ?_,
    by simp [plan]⟩
  simp only [plan, List.append_nil] at he
  split at he
  · rw [List.mem_singleton.1 he]
    rfl
  · cases he

/-! ## The whole walk -/

namespace Node

/-- A value is checked in the order of its plan. -/
theorem validate_eq_check (n : Node) : n.validate = n.plan.check := by
  cases n with
  | record k r =>
    cases k with
    | comid => exact Comid.validate_eq r
    | tagIdentity => exact TagIdentity.validate_eq r
    | entity => exact Entity.validate_eq r
    | triples => exact Triples.validate_eq r
    | environment => exact Environment.validate_eq r
    | class_ => exact Class.validate_eq r
    | measurement => exact Measurement.validate_eq r
    | mval => exact Mval.validate_eq r
    | version => exact Version.validate_eq r
    | unsignedCorim => exact UnsignedCorim.validate_eq r
    | meta_ => exact Meta.validate_eq r
    | signer => exact Signer.validate_eq r
    | validity => exact Validity.validate_eq r
  | valueTriple t => exact t.validate_eq
  | extension value =>
    cases value with
    | digests ds => exact ds.validate_eq
    | _ => exact (Plan.check_of_leaf _).symm
  | digests ds => exact ds.validate_eq
  | choice | digest | time => exact (Plan.check_of_leaf _).symm

/-- In the plan of a value a step leads to one place. -/
theorem lawful_plan (n : Node) : n.plan.Lawful := by
  cases n with
  | record k r =>
    have hmissing (mandatory : List String) : ∀ e ∈ Record.missing mandatory r, e.path = [] :=
      fun _ => Record.path_missing
    have hnothing (message : String) : ∀ e ∈ Record.nothingSet message r, e.path = [] :=
      fun _ => Record.path_nothingSet
    cases k with
    | comid => exact Record.lawful_plan (hmissing _) (by simp)
    | tagIdentity => exact Record.lawful_plan (hmissing _) (by simp)
    | entity => exact Record.lawful_plan (hmissing _) (by simp)
    | triples => exact Record.lawful_plan (hnothing _) (by simp)
    | environment => exact Record.lawful_plan (hmissing _) (by simp)
    | class_ => exact Record.lawful_plan (hnothing _) (by simp)
    | measurement => exact Record.lawful_plan (hmissing _) (by simp)
    | mval => exact Record.lawful_plan (hnothing _) (by simp)
    | version => exact Record.lawful_plan (hmissing _) (by simp)
    | unsignedCorim => exact Record.lawful_plan (hmissing _) (by simp)
    | meta_ => exact Record.lawful_plan (hmissing _) (by simp)
    | signer => exact Record.lawful_plan (hmissing _) (by simp)
    | validity => exact Validity.lawful_plan r
  | valueTriple t => exact t.lawful_plan
  | extension value =>
    cases value with
    | digests ds => exact ds.lawful_plan
    | _ => exact Plan.lawful_of_leaf _
  | digests ds => exact ds.lawful_plan
  | choice | digest | time => exact Plan.lawful_of_leaf _

/-- A value tells the first violation of the walk. -/
theorem validate_eq_tell (n : Node) : n.validate = Validation.tell n.violations := by
  -- By induction on how deep values can nest.
  induction hheight : n.height using Nat.strong_induction_on generalizing n with
  | _ height ih =>
    subst hheight
    rw [validate_eq_check, ← Plan.forM_visits, violations_eq]
    refine Validation.forM_eq_tell fun v hv => ?_
    cases v with
    | violation e => rfl
    | child step m =>
      rw [Visit.check, ih m.height (height_lt_of_child hv) m rfl, Validation.inside_tell]
      rfl

end Node

/-- A value passes its check exactly when a depth-first walk finds nothing wrong, and otherwise
tells what the walk finds first. Where the first step of the path leads to the place of a child,
there is a child: the field is present, the index in range, or the key among the extensions. Its own
check fails with the same cause and the rest of the path, and everything before it on the walk is in
order. -/
theorem first_violation_told (n : Node) :
    (n.validate = .ok () ↔ n.violations = []) ∧
    (∀ e, n.validate = .error e ↔ n.violations.head? = some e) ∧
    ∀ e step rest place, n.validate = .error e → e.path = step :: rest →
      n.childAt? step = some place →
      ∃ m before after, place = some m ∧ m.validate = .error ⟨e.cause, rest⟩ ∧
        n.visits = before ++ .child step m :: after ∧ ∀ v ∈ before, v.violations = [] := by
  refine ⟨?_, fun e => ?_, fun e step rest place he hpath hplace => ?_⟩
  · rw [Node.validate_eq_tell, Validation.tell_eq_ok_iff]
  · rw [Node.validate_eq_tell, Validation.tell_eq_error_iff]
  · rw [Node.validate_eq_tell, Validation.tell_eq_error_iff, Node.violations_eq] at he
    obtain ⟨before, v, after, hvisits, hbefore, hv⟩ := exists_of_head?_flatMap he
    have hmem : v ∈ n.visits := by simp [hvisits]
    have hlawful := n.lawful_plan
    cases v with
    | violation e' =>
      obtain rfl : e' = e := by simpa [Visit.violations] using hv
      have hnone : n.childAt? step = none := hlawful.childAt?_of_violation hmem hpath
      rw [hplace] at hnone
      cases hnone
    | child step' m =>
      obtain ⟨e', he', rfl⟩ : ∃ e', m.violations.head? = some e' ∧ e'.within step' = e := by
        simpa [Visit.violations] using hv
      obtain ⟨rfl, rfl⟩ := List.cons.inj hpath
      have hchild : n.childAt? step' = some (some m) := hlawful.childAt?_of_child hmem
      refine ⟨m, before, after, Option.some.inj (hplace.symm.trans hchild), ?_, hvisits, hbefore⟩
      rw [Node.validate_eq_tell]
      exact Validation.tell_eq_error_iff.2 he'

/-- A manifest whose second tag has no triples, an empty language and an empty identifier, beside an
entity with neither name nor roles. -/
def faultyManifest : UnsignedCorim :=
  { noteManifest with
    tags := noteManifest.tags ++
      [{ language := some "", tagIdentity := some { tagId := some (.text "") } }]
    entities := [{}] }

/-- Of all that is wrong with the manifest it tells the triples that are missing in its second tag,
and so does the tag itself. -/
theorem first_violation_told_faulty :
    Record.validate faultyManifest = .error ⟨.missingField "triples", [.index "tags" 1]⟩ ∧
    (Node.record .unsignedCorim faultyManifest).violations.head? =
      some ⟨.missingField "triples", [.index "tags" 1]⟩ ∧
    ∃ m, (Node.record .unsignedCorim faultyManifest).childAt? (.index "tags" 1) = some (some m) ∧
      m.validate = .error ⟨.missingField "triples", []⟩ := by
  have htold : (Node.record .unsignedCorim faultyManifest).validate =
    .error ⟨.missingField "triples", [.index "tags" 1]⟩ := rfl
  obtain ⟨-, hfirst, hlocated⟩ := first_violation_told (.record .unsignedCorim faultyManifest)
  obtain ⟨m, _, _, hplace, hchild, -⟩ := hlocated _ _ _ _ htold rfl rfl
  exact ⟨htold, (hfirst _).1 htold, m, congrArg some hplace, hchild⟩

end Rim
