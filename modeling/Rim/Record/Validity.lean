import Rim.Schema.Record
import Rim.Time.Rfc3339

/-!
# Validity windows

* `Instant.coding`: times as tagged seconds in the binary form, RFC 3339 text in the text form.
* `Validity`: a window in time. Its ends have a resolution of one second.
-/

namespace Rim

namespace Instant

/-- Reads tagged seconds. -/
def ofCbor (v : Cbor) : Except DecodeError Instant := do
  let seconds ← Cbor.expectInt (← Cbor.expectTag TagNumber.epochTime v)
  match ofTimestamp? seconds.toInt 0 with
  | some t => return t
  | none => throw (.invalidValue s!"epoch time {seconds.toInt} out of range")

/-- Reads RFC 3339 text; a fraction of a second is dropped. -/
def ofJson (v : Json) : Except DecodeError Instant := do
  let s ← Json.expectString v
  match Rfc3339.parse s with
  | .ok t => return t.truncate
  | .error e => throw (.invalidValue s!"{Text.quote s}: {e.message}")

def coding : Coding Instant where
  encode
    | .binary, t => .ok (Cbor.tag TagNumber.epochTime (Cbor.ofInt t.seconds))
    | .text, t => .ok (Json.string (Rfc3339.render t))
  decode
    | .binary, v => ofCbor v
    | .text, v => ofJson v

/-- A time must not have a nanosecond part. -/
def validate (t : Instant) : Validation :=
  Validation.require (t.nanos = 0) (.invalid s!"{t.display} has a fractional second")

end Instant

/-- A window in time; without a beginning it has always been open. -/
structure Validity where
  notBefore : Option Instant := none
  notAfter : Option Instant := none
  deriving DecidableEq, Repr

namespace Validity

/-- The end has to be there, both ends in whole seconds, and the beginning not after the end. -/
def validate (w : Validity) : Validation := do
  match w.notAfter with
  | none => throw (.missing "not-after")
  | some notAfter =>
    Validation.field "not-after" notAfter.validate
    match w.notBefore with
    | none => return ()
    | some notBefore =>
      Validation.field "not-before" notBefore.validate
      Validation.require (!notAfter.isBefore notBefore)
        (.invalid "not-before is later than not-after")

/-- A window with the fractions of its ends dropped. -/
def make (notBefore : Option Instant) (notAfter : Instant) : Except ValidationError Validity := do
  let w : Validity := ⟨notBefore.map (·.truncate), some notAfter.truncate⟩
  w.validate
  return w

/-- Whether a time lies in the window. A window without an end holds nothing. -/
def contains (w : Validity) (t : Instant) : Bool :=
  (match w.notBefore with
    | some notBefore => !t.isBefore notBefore
    | none => true) &&
  (match w.notAfter with
    | some notAfter => !notAfter.isBefore t
    | none => false)

def fields : List (Field Validity) :=
  [.of 0 "not-before" Instant.coding.toWire (·.notBefore) fun t w => { w with notBefore := some t },
   .of 1 "not-after" Instant.coding.toWire (·.notAfter) fun t w => { w with notAfter := some t }]

instance : Record Validity where
  name := "validity"
  fields := fields
  empty := {}
  validate := validate

end Validity

end Rim
