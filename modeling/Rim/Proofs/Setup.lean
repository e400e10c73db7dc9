import Rim.Proofs.Registry

/-!
# Setup as a sequence of calls

* `SetupCall`, `Registry.call`: the setup calls as data, and what each makes of a registry.
* `Registry.attempt`, `Registry.attempts`: calls made in turn. One that fails leaves the registry as
  it is.
* `Registry.GrowsTo`: a registry has all variants and profiles of another, and further ones behind
  them.
* `Registry.growsTo_attempts`: setup makes a registry grow.
* `Registry.distinct_attempts`: in each family a type tag and a discriminator have one variant after
  any setup.
-/

namespace Rim

/-- A setup call with its arguments. -/
inductive SetupCall where
  | registerType (family : Family) (discriminator : Discriminator) (factory : Factory)
  /-- The profile may have a template. -/
  | registerProfile (p : Profile)
  | bind (point : ExtensionPoint) (shape : ExtensionShape)
  | bindProfile (id : ProfileId)
  | finish

namespace Registry

/-- The registry after a setup call that succeeds. -/
def call (reg : Registry) : SetupCall → Except RegistrationError Registry
  | .registerType family discriminator factory => do
    let (_, next) ← reg.registerType family discriminator factory
    return next
  | .registerProfile p => reg.registerProfile p
  | .bind point shape => reg.bind point shape
  | .bindProfile id => reg.bindProfile id
  | .finish => return reg.sealed

/-- The registry after a setup call; one that fails leaves it as it is. -/
def attempt (reg : Registry) (c : SetupCall) : Registry :=
  match reg.call c with
  | .ok next => next
  | .error _ => reg

/-- The registry after setup calls made in turn. -/
def attempts (reg : Registry) (calls : List SetupCall) : Registry := calls.foldl attempt reg

/-! ## Steps -/

/-- What a setup call does if it succeeds, and under which conditions it does. -/
inductive Step (reg : Registry) : SetupCall → Registry → Prop where
  | registerType {family : Family} {discriminator : Discriminator} {factory : Factory}
      {typeTag : String} {types : TypeTable} : reg.isSealed = false →
      reg.types.register family discriminator factory = .ok (typeTag, types) →
      Step reg (.registerType family discriminator factory) { reg with types }
  | registerProfile {p : Profile} : reg.isSealed = false → reg.profile? p.id = none →
      Step reg (.registerProfile p) { reg with profiles := reg.profiles ++ [p] }
  | bind {point : ExtensionPoint} {shape : ExtensionShape} {bindings : ExtensionMap} :
      reg.isSealed = false → reg.bindings.replace point shape = .ok bindings →
      Step reg (.bind point shape) { reg with bindings }
  | bindProfile {id : ProfileId} {p : Profile} : reg.isSealed = false →
      reg.profile? id = some p →
      Step reg (.bindProfile id) { reg with bindings := reg.bindings.overlay p.shapes }
  | finish : Step reg .finish reg.sealed

theorem requireOpen_cases {reg : Registry} {action : String} {u : Unit}
    (h : reg.requireOpen action = .ok u) : reg.isSealed = false := by
  unfold requireOpen at h
  split at h
  · cases h
  next hopen => simpa using hopen

theorem step_of_call {reg next : Registry} {c : SetupCall} (h : reg.call c = .ok next) :
    reg.Step c next := by
  cases c with
  | registerType family discriminator factory =>
    obtain ⟨⟨typeTag, table⟩, hregister, hnext⟩ := Except.bind_eq_ok_iff.1 h
    obtain rfl := Except.ok.inj hnext
    obtain ⟨types, htable, rfl⟩ := registerType_cases hregister
    obtain ⟨_, hopen, -⟩ := Except.bind_eq_ok_iff.1 hregister
    exact .registerType (requireOpen_cases hopen) htable
  | registerProfile p =>
    obtain ⟨_, hopen, -⟩ := Except.bind_eq_ok_iff.1 h
    obtain ⟨hfree, rfl⟩ := registerProfile_cases h
    exact .registerProfile (requireOpen_cases hopen) hfree
  | bind point shape =>
    obtain ⟨_, hopen, -⟩ := Except.bind_eq_ok_iff.1 h
    obtain ⟨bindings, hreplace, rfl⟩ := bind_cases h
    exact .bind (requireOpen_cases hopen) hreplace
  | bindProfile id =>
    obtain ⟨_, hopen, -⟩ := Except.bind_eq_ok_iff.1 h
    obtain ⟨p, hp, rfl⟩ := bindProfile_cases h
    exact .bindProfile (requireOpen_cases hopen) hp
  | finish =>
    obtain rfl := Except.ok.inj h
    exact .finish

theorem attempt_of_ok {reg next : Registry} {c : SetupCall} (h : reg.call c = .ok next) :
    reg.attempt c = next := by
  rw [attempt, h]

theorem attempt_of_error {reg : Registry} {c : SetupCall} {e : RegistrationError}
    (h : reg.call c = .error e) : reg.attempt c = reg := by
  rw [attempt, h]

/-- What every successful step keeps, every call keeps. -/
theorem attempt_induction {P : Registry → Prop} {reg : Registry} {c : SetupCall} (hreg : P reg)
    (hstep : ∀ next, reg.Step c next → P next) : P (reg.attempt c) := by
  cases h : reg.call c with
  | ok next =>
    rw [attempt_of_ok h]
    exact hstep next (step_of_call h)
  | error e =>
    rw [attempt_of_error h]
    exact hreg

/-- What every successful step keeps, a run of calls keeps. -/
theorem attempts_induction {P : Registry → Prop} {reg : Registry} {calls : List SetupCall}
    (hreg : P reg) (hstep : ∀ reg next, ∀ c ∈ calls, reg.Step c next → P reg → P next) :
    P (reg.attempts calls) := by
  induction calls generalizing reg with
  | nil => exact hreg
  | cons c rest ih =>
    refine ih (attempt_induction hreg fun next h => hstep reg next c (by simp) h hreg) ?_
    exact fun reg next d hd => hstep reg next d (by simp [hd])

theorem attempts_append (reg : Registry) (calls more : List SetupCall) :
    reg.attempts (calls ++ more) = (reg.attempts calls).attempts more := List.foldl_append

/-! ## Growth -/

/-- The second registry has the variants and profiles of the first, and further ones behind them. -/
structure GrowsTo (reg later : Registry) : Prop where
  types : reg.types <+: later.types
  profiles : reg.profiles <+: later.profiles

namespace GrowsTo

variable {reg next later : Registry}

theorem refl (reg : Registry) : reg.GrowsTo reg := ⟨List.prefix_rfl, List.prefix_rfl⟩

theorem trans (h : reg.GrowsTo next) (h' : next.GrowsTo later) : reg.GrowsTo later :=
  ⟨h.types.trans h'.types, h.profiles.trans h'.profiles⟩

/-- A registered profile is found under its identifier ever after. -/
theorem profile? (h : reg.GrowsTo later) {id : ProfileId} {p : Profile}
    (hp : reg.profile? id = some p) : later.profile? id = some p :=
  h.profiles.find?_eq_some hp

/-- A setup call makes a registry grow. -/
theorem of_step {c : SetupCall} (h : reg.Step c next) : reg.GrowsTo next := by
  cases h with
  | registerType _ h =>
    obtain ⟨-, -, -, rfl⟩ := TypeTable.register_cases h
    exact ⟨List.prefix_append _ _, List.prefix_rfl⟩
  | registerProfile => exact ⟨List.prefix_rfl, List.prefix_append _ _⟩
  | _ => exact ⟨List.prefix_rfl, List.prefix_rfl⟩

end GrowsTo

theorem growsTo_attempt (reg : Registry) (c : SetupCall) : reg.GrowsTo (reg.attempt c) :=
  attempt_induction (.refl reg) fun _ h => .of_step h

/-- Setup calls make a registry grow, whether they succeed or not. -/
theorem growsTo_attempts (reg : Registry) (calls : List SetupCall) :
    reg.GrowsTo (reg.attempts calls) := by
  induction calls generalizing reg with
  | nil => exact .refl reg
  | cons c rest ih => exact (reg.growsTo_attempt c).trans (ih (reg.attempt c))

/-! ## Variants -/

/-- A setup call keeps the variants distinct. -/
theorem Step.distinct {reg next : Registry} {c : SetupCall} (h : reg.Step c next)
    (hd : reg.types.Distinct) : next.types.Distinct := by
  cases h with
  | registerType _ h => exact hd.register h
  | _ => exact hd

/-- Setup keeps the variants distinct, whatever its calls are. -/
theorem distinct_attempts {start : Registry} (hstart : start = .empty ∨ start = .withBuiltins)
    (calls : List SetupCall) : (start.attempts calls).types.Distinct := by
  refine attempts_induction ?_ fun _ _ _ _ hstep => hstep.distinct
  rcases hstart with rfl | rfl
  · exact ⟨List.nodup_nil, List.nodup_nil⟩
  · exact TypeTable.distinct_builtin

end Registry

end Rim
