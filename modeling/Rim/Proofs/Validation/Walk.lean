import Mathlib.Data.List.Sort
import Rim.Proofs.Record.Graph
import Rim.Proofs.Schema.Layout

/-!
# A walk through a graph of values

What a value is checked for, told as data and without any check being run.

* `Node`: the values that have a check of their own.
* `Slot`, `Plan`: what the walk finds in the place of a field, and the order in which it goes
  through a value: absent mandatory fields first, then the fields as declared with the elements of
  lists in order, then the entries of the extension set in the order of their keys.
* `Node.plan`: the plan for each kind of value.
* `Node.visits`, `Node.violations`: the stops of the walk at a value, and all violations that a
  depth-first walk finds in it and below.
* `Node.childAt?`: the child that a step leads to.
-/

namespace Rim

/-! ## Plans -/

/-- A value with a check of its own. -/
inductive Node where
  | record (k : RecordKind) (r : k.Carrier)
  | valueTriple (t : ValueTriple)
  | choice (value : ChoiceValue)
  | extension (value : ExtensionValue)
  | digests (ds : Digests)
  | digest (d : Digest)
  | time (t : Instant)

/-- The check of a value. -/
def Node.validate : Node → Validation
  | .record _ r => Record.validate r
  | .valueTriple t => t.validate
  | .choice value => value.validate
  | .extension value => value.validate
  | .digests ds => ds.validate
  | .digest d => d.validate
  | .time t => t.validate

/-- A stop of the walk: something that is wrong with the value itself, or a child. -/
inductive Visit where
  | violation (e : ValidationError)
  | child (step : PathSegment) (node : Node)

/-- What the walk finds in the place of a field. -/
inductive Slot where
  /-- A child, if the field is present. -/
  | child (node : Option Node)
  /-- A list of children. -/
  | children (nodes : List Node)
  /-- No child, and what is wrong with the content. -/
  | content (violations : List ValidationError)

/-- The stops at a field. -/
def Slot.visits (name : String) : Slot → List Visit
  | .child node => node.toList.map (.child (.field name))
  | .children nodes => nodes.zipIdx.map fun (node, i) => .child (.index name i) node
  | .content violations => violations.map .violation

/-- The order in which the walk goes through a value. -/
structure Plan where
  /-- What is wrong before anything inside is looked at. -/
  first : List ValidationError := []
  fields : List (String × Slot) := []
  /-- The value's own extension set, if it has one. -/
  extensions : Option ExtensionSet := none
  /-- What is wrong with the value as a whole. -/
  last : List ValidationError := []

namespace ExtensionSet

/-- The entries in the order of their keys. -/
def inKeyOrder (set : ExtensionSet) : Keyed ExtensionValue :=
  set.entries.mergeSort fun a b => a.1 ≤ b.1

/-- A set keeps its entries in this order. -/
theorem inKeyOrder_eq (set : ExtensionSet) : set.inKeyOrder = set.entries :=
  List.mergeSort_of_pairwise
    ((List.pairwise_map.1 set.sorted).imp fun hlt => by simpa using hlt.le)

/-- The stops at an extension set. -/
def visits (set : ExtensionSet) : List Visit :=
  set.inKeyOrder.map fun (key, value) => .child (.extension key) (.extension value)

theorem mem_visits {set : ExtensionSet} {v : Visit} :
    v ∈ set.visits ↔
      ∃ key value, (key, value) ∈ set.entries ∧ v = .child (.extension key) (.extension value) := by
  rw [visits, inKeyOrder_eq, List.mem_map]
  exact ⟨fun ⟨(key, value), he, heq⟩ => ⟨key, value, he, heq.symm⟩,
    fun ⟨key, value, he, heq⟩ => ⟨(key, value), he, heq.symm⟩⟩

end ExtensionSet

namespace Plan

/-- The stops at a value. -/
def visits (p : Plan) : List Visit :=
  p.first.map .violation ++ p.fields.flatMap (fun (name, slot) => slot.visits name) ++
    p.extensions.toList.flatMap (·.visits) ++ p.last.map .violation

/-- What stands in the place of a field. -/
def slot? (p : Plan) (name : String) : Option Slot :=
  (p.fields.find? (·.1 = name)).map (·.2)

/-- Where a step leads: nowhere if there is no child in its place, else to the child, if the field
is present, the index in range or the key among the extensions. -/
def childAt? (p : Plan) : PathSegment → Option (Option Node)
  | .field name => match p.slot? name with
    | some (.child node) => some node
    | _ => none
  | .index list i => match p.slot? list with
    | some (.children nodes) => some nodes[i]?
    | _ => none
  | .extension key => p.extensions.map fun set => (set.entries.find? key).map .extension
  | .variant _ => none

end Plan

/-! ## Contents without children -/

/-- What a check that goes no further into a value has found. -/
def Validation.violations : Validation → List ValidationError
  | .ok () => []
  | .error e => [e]

namespace Slot

/-- A text, which is not empty if it is present. -/
def text (name : String) (s : Option String) : Slot :=
  .content (if s = some "" then [.empty name] else [])

/-- A URI, which is neither empty nor relative if it is present. -/
def uri (name : String) : Option String → Slot
  | none => .content []
  | some s => .content (if s = "" then [.empty name]
    else if Uri.isAbsolute s then [] else [.notAbsoluteUri name s])

/-- Roles, none of which stands before already. -/
def roles (rs : Roles) : Slot :=
  .content <| rs.zipIdx.filterMap fun x =>
    if x.1 ∈ rs.take x.2 then
      some ((ValidationError.invalid s!"duplicate role {x.1.name}").within (.index "roles" x.2))
    else none

end Slot

/-! ## Records -/

namespace Record

variable {R : Type} [Record R]

/-- The mandatory fields that are absent, in declared order. -/
def missing (mandatory : List String) (r : R) : List ValidationError :=
  ((fields (R := R)).filter fun x => x.key.name ∈ mandatory ∧ (x.get r).isNone).map fun x =>
    .missing x.key.name

/-- A record in which nothing at all is set. -/
def nothingSet (message : String) (r : R) : List ValidationError :=
  if (present r).isEmpty && (ownSet r).isEmpty then [.invalid message] else []

/-- The fields in declared order, with what stands in them. -/
def slots (slot : R → String → Slot) (r : R) : List (String × Slot) :=
  (fields (R := R)).map fun x => (x.key.name, slot r x.key.name)

/-- The record's own set, if its records have one. -/
def ownSet? (r : R) : Option ExtensionSet := (host (R := R)).map (·.get r)

end Record

/-! ## What stands in the fields -/

def TagIdentity.slot (t : TagIdentity) : String → Slot
  | "id" => .child (t.tagId.map .choice)
  | _ => .content []

def Entity.slot (e : Entity) : String → Slot
  | "name" => .child (e.name.map .choice)
  | "regid" => .uri "regid" e.regId
  | "roles" => .roles e.roles
  | _ => .content []

def Class.slot (c : Class) : String → Slot
  | "id" => .child (c.classId.map .choice)
  | "vendor" => .text "vendor" c.vendor
  | "model" => .text "model" c.model
  | _ => .content []

def Environment.slot (e : Environment) : String → Slot
  | "class" => .child (e.class_.map (.record .class_))
  | _ => .content []

def Version.slot (v : Version) : String → Slot
  | "value" => .text "value" v.value
  | _ => .content []

def Mval.slot (m : Mval) : String → Slot
  | "version" => .child (m.version.map (.record .version))
  | "digests" => .child (m.digests.map .digests)
  | "serial-number" => .text "serial-number" m.serialNumber
  | "name" => .text "name" m.name
  | _ => .content []

def Measurement.slot (m : Measurement) : String → Slot
  | "value" => .child (m.value.map (.record .mval))
  | _ => .content []

def Triples.slot (t : Triples) : String → Slot
  | "reference-values" => .children (t.referenceValues.map .valueTriple)
  | "endorsed-values" => .children (t.endorsedValues.map .valueTriple)
  | _ => .content []

def Comid.slot (c : Comid) : String → Slot
  | "lang" => .text "lang" c.language
  | "tag-identity" => .child (c.tagIdentity.map (.record .tagIdentity))
  | "entities" => .children (c.entities.map (.record .entity))
  | "triples" => .child (if c.triples.isEmpty then none else some (.record .triples c.triples))
  | _ => .content []

def UnsignedCorim.slot (m : UnsignedCorim) : String → Slot
  | "corim-id" => .child (m.id.map .choice)
  | "tags" => .children (m.tags.map (.record .comid))
  | "rim-validity" => .child (m.rimValidity.map (.record .validity))
  | "entities" => .children (m.entities.map (.record .entity))
  | _ => .content []

def Signer.slot (s : Signer) : String → Slot
  | "name" => .text "name" s.name
  | "uri" => .uri "uri" s.uri
  | _ => .content []

def Meta.slot (m : Meta) : String → Slot
  | "signer" => .child (m.signer.map (.record .signer))
  | "validity" => .child (m.validity.map (.record .validity))
  | _ => .content []

/-! ### In declared order -/

@[simp] theorem TagIdentity.slots_eq (t : TagIdentity) : Record.slots slot t =
    [("id", .child (t.tagId.map .choice)), ("version", .content [])] := rfl

@[simp] theorem Entity.slots_eq (e : Entity) : Record.slots slot e =
    [("name", .child (e.name.map .choice)), ("regid", .uri "regid" e.regId),
      ("roles", .roles e.roles)] := rfl

@[simp] theorem Class.slots_eq (c : Class) : Record.slots slot c =
    [("id", .child (c.classId.map .choice)), ("vendor", .text "vendor" c.vendor),
      ("model", .text "model" c.model), ("layer", .content []), ("index", .content [])] := rfl

@[simp] theorem Environment.slots_eq (e : Environment) : Record.slots slot e =
    [("class", .child (e.class_.map (.record .class_)))] := rfl

@[simp] theorem Version.slots_eq (v : Version) : Record.slots slot v =
    [("value", .text "value" v.value), ("scheme", .content [])] := rfl

@[simp] theorem Mval.slots_eq (m : Mval) : Record.slots slot m =
    [("version", .child (m.version.map (.record .version))), ("svn", .content []),
      ("digests", .child (m.digests.map .digests)),
      ("serial-number", .text "serial-number" m.serialNumber), ("name", .text "name" m.name)] := rfl

@[simp] theorem Measurement.slots_eq (m : Measurement) : Record.slots slot m =
    [("value", .child (m.value.map (.record .mval)))] := rfl

@[simp] theorem Triples.slots_eq (t : Triples) : Record.slots slot t =
    [("reference-values", .children (t.referenceValues.map .valueTriple)),
      ("endorsed-values", .children (t.endorsedValues.map .valueTriple))] := rfl

@[simp] theorem Comid.slots_eq (c : Comid) : Record.slots slot c =
    [("lang", .text "lang" c.language),
      ("tag-identity", .child (c.tagIdentity.map (.record .tagIdentity))),
      ("entities", .children (c.entities.map (.record .entity))),
      ("triples",
        .child (if c.triples.isEmpty then none else some (.record .triples c.triples)))] := rfl

@[simp] theorem UnsignedCorim.slots_eq (m : UnsignedCorim) : Record.slots slot m =
    [("corim-id", .child (m.id.map .choice)), ("tags", .children (m.tags.map (.record .comid))),
      ("profile", .content []), ("rim-validity", .child (m.rimValidity.map (.record .validity))),
      ("entities", .children (m.entities.map (.record .entity)))] := rfl

@[simp] theorem Signer.slots_eq (s : Signer) : Record.slots slot s =
    [("name", .text "name" s.name), ("uri", .uri "uri" s.uri)] := rfl

@[simp] theorem Meta.slots_eq (m : Meta) : Record.slots slot m =
    [("signer", .child (m.signer.map (.record .signer))),
      ("validity", .child (m.validity.map (.record .validity)))] := rfl

/-- A beginning after the end. -/
def Validity.disorder (w : Validity) : List ValidationError :=
  match w.notBefore, w.notAfter with
  | some notBefore, some notAfter =>
    if notAfter.isBefore notBefore then [.invalid "not-before is later than not-after"] else []
  | _, _ => []

/-! ## The plan for each kind of value -/

open Record in
/-- How the walk goes through the records of a kind. Windows alone are not gone through in declared
order: their end comes first. -/
def RecordKind.plan : (k : RecordKind) → k.Carrier → Plan
  | .comid, c =>
    { first := missing ["tag-identity", "triples"] c
      fields := slots Comid.slot c
      extensions := ownSet? c }
  | .tagIdentity, t => { first := missing ["id"] t, fields := slots TagIdentity.slot t }
  | .entity, e =>
    { first := missing ["name", "roles"] e
      fields := slots Entity.slot e
      extensions := ownSet? e }
  | .triples, t =>
    { first := nothingSet "no triples" t
      fields := slots Triples.slot t
      extensions := ownSet? t }
  | .environment, e => { first := missing ["class"] e, fields := slots Environment.slot e }
  | .class_, c =>
    { first := nothingSet "class must not be empty" c
      fields := slots Class.slot c
      extensions := ownSet? c }
  | .measurement, m => { first := missing ["value"] m, fields := slots Measurement.slot m }
  | .mval, m =>
    { first := nothingSet "no measurement value set" m
      fields := slots Mval.slot m
      extensions := ownSet? m }
  | .version, v => { first := missing ["value"] v, fields := slots Version.slot v }
  | .unsignedCorim, m =>
    { first := missing ["corim-id", "tags"] m
      fields := slots UnsignedCorim.slot m
      extensions := ownSet? m }
  | .meta_, m => { first := missing ["signer"] m, fields := slots Meta.slot m }
  | .signer, s => { first := missing ["name"] s, fields := slots Signer.slot s }
  | .validity, w =>
    { first := missing ["not-after"] w
      fields := [("not-after", .child (w.notAfter.map .time)),
        ("not-before", .child (w.notBefore.map .time))]
      last := w.disorder }

/-- How deep the records of a kind can nest. -/
def RecordKind.height : RecordKind → Nat
  | .unsignedCorim => 8
  | .comid => 7
  | .triples => 6
  | .environment | .measurement => 4
  | .entity | .class_ | .mval => 3
  | .meta_ => 2
  | .tagIdentity | .validity => 1
  | .version | .signer => 0

/-- How the walk goes through digests. -/
def Digests.plan (ds : Digests) : Plan where
  first := if ds.entries.isEmpty then [.empty "digests"] else []
  fields := [("digests", .children (ds.entries.map .digest))]

namespace Node

/-- How the walk goes through a value. Type choices and plain values are not taken apart. -/
def plan : Node → Plan
  | .record k r => k.plan r
  | .valueTriple t =>
    { first := if t.measurements.isEmpty then [.missing "measurements"] else []
      fields := [("environment", .child (some (.record .environment t.environment))),
        ("measurements", .children (t.measurements.map (.record .measurement)))] }
  | .digests ds => ds.plan
  | .extension (.digests ds) => ds.plan
  | .extension value => { first := value.validate.violations }
  | .choice value => { first := value.validate.violations }
  | .digest d => { first := d.validate.violations }
  | .time t => { first := t.validate.violations }

/-- The stops of the walk at a value. -/
def visits (n : Node) : List Visit := n.plan.visits

/-- Where a step leads from a value: nowhere if there is no child in its place, else to the child,
if the field is present, the index in range or the key among the extensions. -/
def childAt? (n : Node) (step : PathSegment) : Option (Option Node) := n.plan.childAt? step

/-- How deep the values of a kind can nest. -/
def height : Node → Nat
  | .record k _ => k.height
  | .valueTriple _ => 5
  | .extension _ => 2
  | .digests _ => 1
  | .choice _ | .digest _ | .time _ => 0

@[simp] theorem height_record (k : RecordKind) (r : k.Carrier) :
    (record k r).height = k.height := rfl

@[simp] theorem height_valueTriple (t : ValueTriple) : (valueTriple t).height = 5 := rfl

@[simp] theorem height_extension (value : ExtensionValue) : (extension value).height = 2 := rfl

@[simp] theorem height_digests (ds : Digests) : (digests ds).height = 1 := rfl

@[simp] theorem height_choice (value : ChoiceValue) : (choice value).height = 0 := rfl

@[simp] theorem height_digest (d : Digest) : (digest d).height = 0 := rfl

@[simp] theorem height_time (t : Instant) : (time t).height = 0 := rfl

end Node

/-! ## Children -/

namespace Slot

/-- The children at a field. -/
def nodes : Slot → List Node
  | .child node => node.toList
  | .children nodes => nodes
  | .content _ => []

theorem mem_nodes_of_visits {name : String} {slot : Slot} {step : PathSegment} {m : Node}
    (h : .child step m ∈ slot.visits name) : m ∈ slot.nodes := by
  cases slot with
  | child node =>
    obtain ⟨node, hnode, heq⟩ := List.mem_map.1 h
    obtain ⟨-, rfl⟩ := Visit.child.inj heq
    exact hnode
  | children nodes =>
    obtain ⟨⟨node, i⟩, hnode, heq⟩ := List.mem_map.1 h
    obtain ⟨-, rfl⟩ := Visit.child.inj heq
    exact List.fst_mem_of_mem_zipIdx hnode
  | content violations =>
    obtain ⟨e, -, heq⟩ := List.mem_map.1 h
    cases heq

@[simp] theorem nodes_child_map {α : Type} (node : α → Node) (x : Option α) :
    (child (x.map node)).nodes = x.toList.map node := by
  cases x <;> rfl

@[simp] theorem nodes_child_none : (child none).nodes = [] := rfl

@[simp] theorem nodes_child_some (m : Node) : (child (some m)).nodes = [m] := rfl

@[simp] theorem nodes_children (ms : List Node) : (children ms).nodes = ms := rfl

@[simp] theorem nodes_content (es : List ValidationError) : (content es).nodes = [] := rfl

@[simp] theorem nodes_text (name : String) (s : Option String) : (text name s).nodes = [] := rfl

@[simp] theorem nodes_uri (name : String) (s : Option String) : (uri name s).nodes = [] := by
  cases s <;> rfl

@[simp] theorem nodes_roles (rs : Roles) : (roles rs).nodes = [] := rfl

end Slot

/-- A child is one of a field or an extension value. -/
theorem Plan.mem_of_child {p : Plan} {step : PathSegment} {m : Node}
    (h : .child step m ∈ p.visits) :
    (∃ x ∈ p.fields, m ∈ x.2.nodes) ∨ ∃ value, p.extensions ≠ none ∧ m = .extension value := by
  simp only [visits, List.mem_append, List.mem_map, List.mem_flatMap, Option.mem_toList] at h
  rcases h with ((⟨_, -, heq⟩ | ⟨x, hx, hslot⟩) | ⟨set, hset, he⟩) | ⟨_, -, heq⟩
  · cases heq
  · exact .inl ⟨x, hx, Slot.mem_nodes_of_visits hslot⟩
  · obtain ⟨key, value, -, heq⟩ := ExtensionSet.mem_visits.1 he
    obtain ⟨-, rfl⟩ := Visit.child.inj heq
    exact .inr ⟨value, by simp [hset], rfl⟩
  · cases heq

namespace Node

/-- What is in the fields of a value nests less deep. -/
theorem height_lt_of_field (n : Node) :
    ∀ x ∈ n.plan.fields, ∀ m ∈ x.2.nodes, m.height < n.height := by
  cases n with
  | record k r =>
    cases k with
    | comid => cases htriples : r.triples.isEmpty <;>
        simp [plan, RecordKind.plan, RecordKind.height, htriples]
    | _ => simp [plan, RecordKind.plan, RecordKind.height]
  | valueTriple t => simp [plan, RecordKind.height]
  | extension value =>
    cases value with
    | digests ds => simp [plan, Digests.plan]
    | _ => exact fun _ hx => absurd hx List.not_mem_nil
  | digests ds => simp [plan, Digests.plan]
  | choice | digest | time => exact fun _ hx => absurd hx List.not_mem_nil

/-- Children nest less deep. -/
theorem height_lt_of_child {n m : Node} {step : PathSegment} (h : .child step m ∈ n.visits) :
    m.height < n.height := by
  rcases Plan.mem_of_child h with ⟨x, hx, hm⟩ | ⟨value, hextensions, rfl⟩
  · exact n.height_lt_of_field x hx m hm
  -- Records with an extension set nest at least three deep.
  · cases n with
    | record k r => cases k <;> first | exact absurd rfl hextensions | simp [RecordKind.height]
    | extension value => cases value <;> exact absurd rfl hextensions
    | _ => exact absurd rfl hextensions

/-! ## The walk -/

/-- All violations that a depth-first walk finds in a value, each with the path to it. -/
def violations (n : Node) : List ValidationError :=
  n.visits.attach.flatMap fun
    | ⟨.violation e, _⟩ => [e]
    | ⟨.child step m, _⟩ => m.violations.map (·.within step)
termination_by n.height
decreasing_by exact height_lt_of_child ‹_›

end Node

/-- All violations that are found at a stop, seen from the value. -/
def Visit.violations : Visit → List ValidationError
  | .violation e => [e]
  | .child step m => m.violations.map (·.within step)

theorem Node.violations_eq (n : Node) : n.violations = n.visits.flatMap Visit.violations := by
  have hattach : n.visits.flatMap Visit.violations =
      (n.visits.attach.map Subtype.val).flatMap Visit.violations := by
    rw [List.attach_map_subtype_val]
  rw [violations, hattach, List.flatMap_map]
  congr 1
  funext ⟨v, hv⟩
  cases v <;> rfl

end Rim
