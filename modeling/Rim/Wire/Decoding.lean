import Rim.Wire.Error

/-!
# Decoding with an account of what was passed over

* `Decoding`: the outcome of a decode together with the number of unknown fields passed over on the
  way, which is known for a failed decode too.
* `Decoding.skip`: passes over one unknown field.
-/

namespace Rim

/-- The outcome of a decode and the unknown fields passed over. -/
structure Decoding (α : Type) where
  skipped : Nat
  outcome : Except DecodeError α

namespace Decoding

/-- A decode that reads nothing. -/
protected def pure {α : Type} (a : α) : Decoding α := ⟨0, .ok a⟩

/-- One decode after another; after a failure nothing more is read. -/
protected def bind {α β : Type} (d : Decoding α) (next : α → Decoding β) : Decoding β :=
  match d.outcome with
  | .ok a => ⟨d.skipped + (next a).skipped, (next a).outcome⟩
  | .error e => ⟨d.skipped, .error e⟩

instance : Monad Decoding where
  pure := Decoding.pure
  bind := Decoding.bind

theorem pure_eq {α : Type} (a : α) : (pure a : Decoding α) = ⟨0, .ok a⟩ := rfl

theorem bind_ok {α β : Type} (n : Nat) (a : α) (next : α → Decoding β) :
    (⟨n, .ok a⟩ >>= next) = ⟨n + (next a).skipped, (next a).outcome⟩ := rfl

theorem bind_error {α β : Type} (n : Nat) (e : DecodeError) (next : α → Decoding β) :
    (⟨n, .error e⟩ >>= next) = ⟨n, .error e⟩ := rfl

instance : LawfulMonad Decoding := LawfulMonad.mk' Decoding
  (by
    rintro α ⟨n, o⟩
    cases o <;> rfl)
  (by
    intro α β a next
    simp [pure_eq, bind_ok])
  (by
    rintro α β γ ⟨n, o⟩ f g
    cases o with
    | error e => rfl
    | ok a =>
      rw [bind_ok]
      rcases h : f a with ⟨m, _ | b⟩
      · simp [bind_ok, bind_error, h]
      · simp [bind_ok, h, Nat.add_assoc])

/-- A decode that passes nothing over. -/
def ofExcept {α : Type} (outcome : Except DecodeError α) : Decoding α := ⟨0, outcome⟩

instance : MonadLift (Except DecodeError) Decoding := ⟨ofExcept⟩

/-- A decode that fails. -/
def fail {α : Type} (e : DecodeError) : Decoding α := ⟨0, .error e⟩

/-- Passes over one unknown field. -/
def skip : Decoding Unit := ⟨1, .ok ()⟩

/-- Changes the error of a failed decode. -/
def mapError {α : Type} (wrap : DecodeError → DecodeError) (d : Decoding α) : Decoding α :=
  ⟨d.skipped, d.outcome.mapError wrap⟩

/-- Decodes the elements of a list from the given index on. -/
def listFrom {α β : Type} (read : α → Decoding β) : (index : Nat) → List α → Decoding (List β)
  | _, [] => pure []
  | i, x :: rest => do
    let y ← (read x).mapError (.index i)
    let ys ← listFrom read (i + 1) rest
    return y :: ys

/-- Decodes the elements of a list in order; the first failure is told with its index. -/
def list {α β : Type} (read : α → Decoding β) (xs : List α) : Decoding (List β) := listFrom read 0 xs

end Decoding

end Rim
