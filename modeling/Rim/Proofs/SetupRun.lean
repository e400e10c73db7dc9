import Rim.Proofs.Record.Octets
import Rim.Proofs.VariantIndexes

/-!
# Setup takes effect as a whole or not at all

* `SetupM`: programs over a stored registry, in which an error undoes nothing.
* `SetupM.perform`: the setup calls as such programs; `SetupM.run_perform`: what they store.
* `SetupM.accepted`: the calls of a run that succeed.
* `SetupCall.profileFor?`, `Registry.shapeFor?`: what a call gives an identifier and a point.
* `SetupOutcome`, `setup_as_a_whole`: what a run of setup calls comes to. The first profile of an
  identifier stays, the last shape of a point is in force, and nothing changes any more once the
  registry is sealed.
-/

namespace Rim

/-! ## Setup in place -/

/-- A program over a stored registry. What it has stored before an error stays stored. -/
abbrev SetupM := ExceptT RegistrationError (StateM Registry)

namespace SetupM

variable {α β : Type}

/-- The outcome of a program, and the registry that it leaves. -/
def run (x : SetupM α) (reg : Registry) : Except RegistrationError α × Registry :=
  StateT.run (ExceptT.run x) reg

/-- Looks at the registry. -/
def check (look : Registry → Except RegistrationError α) : SetupM α := do
  match look (← get) with
  | .ok a => return a
  | .error e => throw e

/-- Every call but the end of setup begins with the seal. -/
def requireOpen (action : String) : SetupM Unit := check (·.requireOpen action)

/-- The setup calls. Bindings are changed in a copy, which takes their place at the end. -/
def perform : SetupCall → SetupM Unit
  | .registerType family discriminator factory => do
    requireOpen "register a type-choice variant"
    let typeTag ← check fun reg =>
      (reg.types.verdict family discriminator factory).mapError .table
    modify fun reg => { reg with types := reg.types ++ [⟨family, typeTag, discriminator, factory⟩] }
  | .registerProfile p => do
    requireOpen "register a profile"
    check fun reg =>
      if (reg.profile? p.id).isSome then .error (.duplicateProfile p.id.text) else .ok ()
    modify fun reg => { reg with profiles := reg.profiles ++ [p] }
  | .bind point shape => do
    requireOpen "bind an extension shape"
    let bindings ← check fun reg => (reg.bindings.replace point shape).mapError .extension
    modify fun reg => { reg with bindings }
  | .bindProfile id => do
    requireOpen "bind a profile"
    let p ← check fun reg => (reg.profile? id).elim (.error (.unknownProfile id.text)) .ok
    modify fun reg => { reg with bindings := reg.bindings.overlay p.shapes }
  | .finish => modify Registry.sealed

theorem run_bind (x : SetupM α) (next : α → SetupM β) (reg : Registry) :
    run (x >>= next) reg =
      match run x reg with
      | (.ok a, reg) => run (next a) reg
      | (.error e, reg) => (.error e, reg) := by
  unfold run
  rw [ExceptT.run_bind, StateT.run_bind]
  rcases h : StateT.run (ExceptT.run x) reg with ⟨_ | a, reg'⟩ <;> rfl

/-- Looking at the registry leaves it as it is. -/
theorem run_check (look : Registry → Except RegistrationError α) (reg : Registry) :
    run (check look) reg = (look reg, reg) := by
  have hget : run get reg = (.ok reg, reg) := rfl
  rw [check, run_bind, hget]
  dsimp only
  cases look reg <;> rfl

/-- A program that looks first and changes something last changes nothing if it fails. -/
theorem run_check_modify (look : Registry → Except RegistrationError α)
    (change : α → Registry → Registry) (reg : Registry) :
    run (check look >>= fun a => modify (change a)) reg =
      match look reg with
      | .ok a => (.ok (), change a reg)
      | .error e => (.error e, reg) := by
  rw [run_bind, run_check]
  cases look reg <;> rfl

/-- Performed in place, a call has the outcome that is known of it, and leaves the registry after it
if it succeeds and the registry before it if it fails. -/
theorem run_perform (c : SetupCall) (reg : Registry) :
    run (perform c) reg = ((reg.call c).map fun _ => (), reg.attempt c) := by
  cases c with
  | registerType family discriminator factory =>
    rw [perform, run_bind, requireOpen, run_check]
    simp only [Registry.attempt, Registry.call, Registry.registerType, TypeTable.register_eq]
    cases reg.requireOpen "register a type-choice variant" with
    | error e => rfl
    | ok _ =>
      dsimp only
      rw [run_check_modify]
      cases reg.types.verdict family discriminator factory <;> rfl
  | registerProfile p =>
    rw [perform, run_bind, requireOpen, run_check]
    simp only [Registry.attempt, Registry.call, Registry.registerProfile]
    cases reg.requireOpen "register a profile" with
    | error e => rfl
    | ok _ =>
      dsimp only
      rw [run_check_modify]
      cases (reg.profile? p.id).isSome <;> rfl
  | bind point shape =>
    rw [perform, run_bind, requireOpen, run_check]
    simp only [Registry.attempt, Registry.call, Registry.bind]
    cases reg.requireOpen "bind an extension shape" with
    | error e => rfl
    | ok _ =>
      dsimp only
      rw [run_check_modify]
      cases reg.bindings.replace point shape <;> rfl
  | bindProfile id =>
    rw [perform, run_bind, requireOpen, run_check]
    simp only [Registry.attempt, Registry.call, Registry.bindProfile]
    cases reg.requireOpen "bind a profile" with
    | error e => rfl
    | ok _ =>
      dsimp only
      rw [run_check_modify]
      cases reg.profile? id <;> rfl
  | finish => rfl

/-! ## Runs -/

/-- The outcomes of calls performed in turn, and the registry that they leave. -/
def performAll : List SetupCall → Registry → List (Except RegistrationError Unit) × Registry
  | [], reg => ([], reg)
  | c :: rest, reg =>
    let (outcome, reg) := run (perform c) reg
    let (outcomes, reg) := performAll rest reg
    (outcome :: outcomes, reg)

/-- The calls that succeed when all are performed in turn. -/
def accepted : List SetupCall → Registry → List SetupCall
  | [], _ => []
  | c :: rest, reg =>
    let (outcome, reg) := run (perform c) reg
    if outcome.isOk then c :: accepted rest reg else accepted rest reg

theorem performAll_cons (c : SetupCall) (rest : List SetupCall) (reg : Registry) :
    performAll (c :: rest) reg =
      (((reg.call c).map fun _ => ()) :: (performAll rest (reg.attempt c)).1,
        (performAll rest (reg.attempt c)).2) := by
  rw [performAll, run_perform]

theorem accepted_of_ok {c : SetupCall} {reg next : Registry} (h : reg.call c = .ok next)
    (rest : List SetupCall) : accepted (c :: rest) reg = c :: accepted rest next := by
  rw [accepted, run_perform, Registry.attempt_of_ok h, h]
  rfl

theorem accepted_of_error {c : SetupCall} {reg : Registry} {e : RegistrationError}
    (h : reg.call c = .error e) (rest : List SetupCall) :
    accepted (c :: rest) reg = accepted rest reg := by
  rw [accepted, run_perform, Registry.attempt_of_error h, h]
  rfl

/-- A run leaves what the attempts make of the registry. -/
theorem performAll_snd (calls : List SetupCall) (reg : Registry) :
    (performAll calls reg).2 = reg.attempts calls := by
  induction calls generalizing reg with
  | nil => rfl
  | cons c rest ih =>
    rw [performAll_cons]
    exact ih (reg.attempt c)

/-- Performed on their own, the successful calls succeed again, and leave the same registry. -/
theorem performAll_accepted (calls : List SetupCall) (reg : Registry) :
    performAll (accepted calls reg) reg =
      (List.replicate (accepted calls reg).length (.ok ()), reg.attempts calls) := by
  induction calls generalizing reg with
  | nil => rfl
  | cons c rest ih =>
    show _ = (_, (reg.attempt c).attempts rest)
    cases h : reg.call c with
    | error e => rw [accepted_of_error h, Registry.attempt_of_error h, ih]
    | ok next =>
      rw [accepted_of_ok h, performAll_cons, Registry.attempt_of_ok h, ih, h]
      rfl

theorem accepted_sublist (calls : List SetupCall) (reg : Registry) :
    (accepted calls reg).Sublist calls := by
  induction calls generalizing reg with
  | nil => exact .slnil
  | cons c rest ih =>
    cases h : reg.call c with
    | error e =>
      rw [accepted_of_error h]
      exact (ih reg).cons c
    | ok next =>
      rw [accepted_of_ok h]
      exact (ih next).cons_cons c

/-- A run can be followed by its successful steps. `P` relates these to the registries before and
after. -/
theorem run_induction {P : List SetupCall → Registry → Registry → Prop}
    (hnil : ∀ reg, P [] reg reg)
    (hstep : ∀ reg c next calls later, reg.Step c next → P calls next later →
      P (c :: calls) reg later) (calls : List SetupCall) (reg : Registry) :
    P (accepted calls reg) reg (reg.attempts calls) := by
  induction calls generalizing reg with
  | nil => exact hnil reg
  | cons c rest ih =>
    show P _ reg ((reg.attempt c).attempts rest)
    cases h : reg.call c with
    | error e =>
      rw [accepted_of_error h, Registry.attempt_of_error h]
      exact ih reg
    | ok next =>
      rw [accepted_of_ok h, Registry.attempt_of_ok h]
      exact hstep reg c next _ _ (Registry.step_of_call h) (ih next)

end SetupM

/-! ## Profiles and shapes -/

/-- The profile that a call registers under an identifier. -/
def SetupCall.profileFor? (id : ProfileId) : SetupCall → Option Profile
  | .registerProfile p => if p.id = id then some p else none
  | _ => none

/-- Whatever profile a call registers, its shapes are in a map that has been built. -/
def SetupCall.BringsBuilt (c : SetupCall) : Prop :=
  ∀ p, c = .registerProfile p → p.shapes.Built fun _ => True

namespace Registry

variable {reg next later : Registry} {c : SetupCall}

/-- The shape that a call puts in force for a point: the shape that it names, if the point goes by
the same name, or the one that its profile has for the point. -/
def shapeFor? (reg : Registry) (point : ExtensionPoint) : SetupCall → Option ExtensionShape
  | .bind other shape => if point.canonical.name = other.canonical.name then some shape else none
  | .bindProfile id => (reg.profile? id).bind (·.shapes.find? point)
  | _ => none

/-- All shapes of the registered profiles are in maps that have been built. -/
def ProfilesBuilt (reg : Registry) : Prop := ∀ p ∈ reg.profiles, p.shapes.Built fun _ => True

/-- A new profile is found under its identifier. -/
theorem Step.profile?_eq (h : reg.Step c next) (id : ProfileId) :
    next.profile? id = (reg.profile? id).or (c.profileFor? id) := by
  cases h with
  | @registerProfile p _ hfree =>
    show (reg.profiles ++ [p]).find? _ = _
    rw [List.find?_append]
    by_cases hid : p.id = id <;> simp [profile?, SetupCall.profileFor?, hid]
  | _ => exact Option.or_none.symm

/-- A new shape is found under the names of its points. -/
theorem Step.find?_eq (h : reg.Step c next) (hreg : reg.ProfilesBuilt) (point : ExtensionPoint) :
    next.bindings.find? point = (reg.shapeFor? point c).or (reg.bindings.find? point) := by
  cases h with
  | @bind other shape bindings _ hreplace =>
    show bindings.find? point = _
    rw [ExtensionMap.find?_replace hreplace, shapeFor?]
    split <;> rfl
  | @bindProfile id p _ hp =>
    show (reg.bindings.overlay p.shapes).find? point = _
    rw [ExtensionMap.find?_overlay (hreg p (mem_of_profile? hp).1), shapeFor?, hp]
    rfl
  | _ => exact Option.none_or.symm

/-- What a successful call puts in force can be told afterwards: a profile stays what it is. -/
theorem Step.shapeFor?_eq (h : reg.Step c next) (hgrows : reg.GrowsTo later)
    (point : ExtensionPoint) : later.shapeFor? point c = reg.shapeFor? point c := by
  cases h with
  | @bindProfile id p _ hp => rw [shapeFor?, shapeFor?, hp, hgrows.profile? hp]
  | _ => rfl

theorem Step.profilesBuilt (h : reg.Step c next) (hc : c.BringsBuilt) (hreg : reg.ProfilesBuilt) :
    next.ProfilesBuilt := by
  cases h with
  | registerProfile _ _ =>
    intro p hp
    rcases List.mem_append.1 hp with hp | hp
    · exact hreg p hp
    · rw [List.mem_singleton.1 hp]
      exact hc _ rfl
  | _ => exact hreg

end Registry

/-! ## The seal -/

/-- What a call is about, as the error of a sealed registry tells it. Setup may end again. -/
def SetupCall.action? : SetupCall → Option String
  | .registerType .. => some "register a type-choice variant"
  | .registerProfile _ => some "register a profile"
  | .bind .. => some "bind an extension shape"
  | .bindProfile _ => some "bind a profile"
  | .finish => none

/-- The outcome of a call on a sealed registry. -/
def SetupCall.sealedOutcome (c : SetupCall) : Except RegistrationError Unit :=
  c.action?.elim (.ok ()) fun action => .error (.isSealed action)

namespace Registry

variable {reg : Registry}

/-- A call on a sealed registry fails because of the seal and of nothing else. -/
theorem run_perform_of_isSealed (h : reg.isSealed = true) (c : SetupCall) :
    SetupM.run (.perform c) reg = (c.sealedOutcome, reg) := by
  obtain ⟨types, profiles, bindings, counters, _⟩ := reg
  obtain rfl : _ = true := h
  cases c <;> rfl

theorem performAll_of_isSealed (h : reg.isSealed = true) (calls : List SetupCall) :
    SetupM.performAll calls reg = (calls.map (·.sealedOutcome), reg) := by
  induction calls with
  | nil => rfl
  | cons c rest ih =>
    simp only [SetupM.performAll, run_perform_of_isSealed h, ih, List.map_cons]

theorem isSealed_attempt (reg : Registry) (c : SetupCall) :
    (reg.attempt c).isSealed = true ↔ reg.isSealed = true ∨ c = .finish := by
  cases h : reg.call c with
  | ok next =>
    rw [attempt_of_ok h]
    cases step_of_call h <;> simp [sealed]
  | error e =>
    rw [attempt_of_error h]
    have hother : c ≠ .finish := by
      rintro rfl
      cases h
    simp [hother]

/-- A registry is sealed once setup has ended. -/
theorem isSealed_attempts (reg : Registry) (calls : List SetupCall) :
    (reg.attempts calls).isSealed = true ↔ reg.isSealed = true ∨ .finish ∈ calls := by
  induction calls generalizing reg with
  | nil => simp [attempts]
  | cons c rest ih =>
    show ((reg.attempt c).attempts rest).isSealed = true ↔ _
    rw [ih, isSealed_attempt, List.mem_cons, or_assoc, eq_comm (b := c)]

end Registry

/-! ## All of setup -/

open SetupM (run perform performAll accepted)

/-- What a run of setup calls makes of a registry. -/
structure SetupOutcome (start : Registry) (calls : List SetupCall) (later : Registry) : Prop where
  /-- The successful calls make the same of it on their own, and none of them fails then. -/
  replay : performAll (accepted calls start) start =
    (List.replicate (accepted calls start).length (.ok ()), later)
  /-- Under each identifier stands the first profile that was registered under it. -/
  profiles : ∀ id, later.profile? id =
    (start.profile? id).or ((accepted calls start).findSome? (·.profileFor? id))
  /-- It stands there ever after. -/
  profilesStay : ∀ id p, later.profile? id = some p →
    ∀ more, (performAll more later).2.profile? id = some p
  /-- At each point the last shape is in force that was bound to it, under any of its names, or that
  a profile bound brought for it. -/
  bindings : ∀ point, later.bindings.find? point =
    ((accepted calls start).filterMap (later.shapeFor? point)).getLast?.or
      (start.bindings.find? point)
  /-- The registry is sealed once setup has ended. -/
  isSealed : later.isSealed = true ↔ start.isSealed = true ∨ .finish ∈ calls
  /-- From then on all calls fail for that, and change nothing. -/
  final : later.isSealed = true →
    ∀ more, performAll more later = (more.map (·.sealedOutcome), later)

namespace Registry

theorem profile?_attempts (calls : List SetupCall) (start : Registry) (id : ProfileId) :
    (start.attempts calls).profile? id =
      (start.profile? id).or ((accepted calls start).findSome? (·.profileFor? id)) := by
  refine SetupM.run_induction (P := fun calls reg later =>
    later.profile? id = (reg.profile? id).or (calls.findSome? (·.profileFor? id))) ?_ ?_ calls start
  · exact fun reg => Option.or_none.symm
  · intro reg c next calls later hstep ih
    rw [ih, hstep.profile?_eq id, Option.or_assoc, List.findSome?_cons]
    cases c.profileFor? id <;> rfl

/-- What the last of the successful calls for a point puts in force. The calls are looked at with
the registry that they lead to, which knows the profiles that they bind. -/
theorem find?_attempts {calls : List SetupCall} {start : Registry} (hstart : start.ProfilesBuilt)
    (hcalls : ∀ c ∈ calls, c.BringsBuilt) (point : ExtensionPoint) :
    (start.attempts calls).bindings.find? point =
      ((accepted calls start).filterMap ((start.attempts calls).shapeFor? point)).getLast?.or
        (start.bindings.find? point) := by
  have hrun := SetupM.run_induction (P := fun calls reg later =>
    reg.ProfilesBuilt → (∀ c ∈ calls, c.BringsBuilt) → reg.GrowsTo later ∧
      later.bindings.find? point =
        (calls.filterMap (later.shapeFor? point)).getLast?.or (reg.bindings.find? point)) ?_ ?_
    calls start
  · have hsublist := (SetupM.accepted_sublist calls start).subset
    exact (hrun hstart fun c hc => hcalls c (hsublist hc)).2
  · exact fun reg _ _ => ⟨.refl reg, rfl⟩
  · intro reg c next calls later hstep ih hreg hbuilt
    have hnext := hstep.profilesBuilt (hbuilt c (by simp)) hreg
    obtain ⟨hgrows, hfind⟩ := ih hnext fun d hd => hbuilt d (List.mem_cons_of_mem _ hd)
    have hall : reg.GrowsTo later := (GrowsTo.of_step hstep).trans hgrows
    refine ⟨hall, ?_⟩
    rw [hfind, hstep.find?_eq hreg, ← hstep.shapeFor?_eq hall]
    cases h : later.shapeFor? point c with
    | none => rw [List.filterMap_cons_none h, Option.none_or]
    | some shape =>
      rw [List.filterMap_cons_some h, List.getLast?_cons]
      cases (calls.filterMap (later.shapeFor? point)).getLast? <;> rfl

end Registry

/-- Take any registry and any setup calls. A call that fails leaves everything exactly as it was.
The run comes to what its successful calls come to, the first profile of an identifier and the last
shape of a point count, and with the first end of setup all is over. -/
theorem setup_as_a_whole {start : Registry} (hstart : start.ProfilesBuilt) {calls : List SetupCall}
    (hcalls : ∀ c ∈ calls, c.BringsBuilt) :
    (∀ reg c e later, run (perform c) reg = (.error e, later) → later = reg) ∧
      SetupOutcome start calls (performAll calls start).2 := by
  constructor
  · intro reg c e later h
    rw [SetupM.run_perform] at h
    obtain ⟨hcall, rfl⟩ := Prod.mk.inj h
    cases hc : reg.call c with
    | ok next =>
      rw [hc] at hcall
      cases hcall
    | error e => exact Registry.attempt_of_error hc
  · rw [SetupM.performAll_snd]
    exact
      { replay := SetupM.performAll_accepted calls start
        profiles := Registry.profile?_attempts calls start
        profilesStay := by
          intro id p hp more
          rw [SetupM.performAll_snd]
          exact (Registry.growsTo_attempts _ more).profile? hp
        bindings := Registry.find?_attempts hstart hcalls
        isSealed := Registry.isSealed_attempts start calls
        final := Registry.performAll_of_isSealed }

/-- Setup with a second profile under an identifier, two shapes for manifests, a shape that has the
slot of a fixed field, and a call that comes too late. -/
def crowdedSetup : List SetupCall :=
  [.registerProfile ⟨.uri "urn:note", noteShapes, none⟩,
    .registerProfile ⟨.uri "urn:note", .empty, some Record.empty⟩,
    .bind .corims ⟨[.plain "remark" 100 .string]⟩, .bind .comids ⟨[.plain "remark" 0 .string]⟩,
    .bindProfile (.uri "urn:note"), .finish, .bind .corims .empty]

/-- Four of the calls succeed. The first profile stays under its identifier, and its shape for
manifests takes the place of the other. -/
theorem setup_as_a_whole_crowded :
    let later := (performAll crowdedSetup .withBuiltins).2
    (accepted crowdedSetup .withBuiltins).length = 4 ∧
      performAll (accepted crowdedSetup .withBuiltins) .withBuiltins =
        (List.replicate (accepted crowdedSetup .withBuiltins).length (.ok ()), later) ∧
      later.profile? (.uri "urn:note") = some ⟨.uri "urn:note", noteShapes, none⟩ ∧
      later.bindings.find? .corims = some noteShape ∧
      performAll crowdedSetup later = (crowdedSetup.map (·.sealedOutcome), later) := by
  intro later
  have hstart : Registry.withBuiltins.ProfilesBuilt := nofun
  have hcalls : ∀ c ∈ crowdedSetup, c.BringsBuilt := by
    have hshape : ExtensionShape.ofFields noteShape.fields = .ok noteShape := rfl
    have hreplace : ExtensionMap.empty.replace (.own "corim" (UnsignedCorim.fields.map (·.key)))
      noteShape = .ok noteShapes := rfl
    have hnote : noteShapes.Built fun _ => True := .replace .empty trivial hshape hreplace
    rintro _ hc p rfl
    simp only [crowdedSetup, List.mem_cons, List.not_mem_nil, SetupCall.registerProfile.injEq,
      reduceCtorEq, or_false] at hc
    obtain rfl | rfl := hc
    · exact hnote
    · exact .empty
  obtain ⟨-, hlaws⟩ := setup_as_a_whole hstart hcalls
  refine ⟨rfl, hlaws.replay, ?_, ?_, ?_⟩
  · exact hlaws.profiles (.uri "urn:note")
  · exact hlaws.bindings .corims
  · exact hlaws.final (hlaws.isSealed.2 (.inr (by simp [crowdedSetup]))) crowdedSetup

end Rim
