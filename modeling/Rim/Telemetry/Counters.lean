import Rim.Binary64.Basic
import Rim.Bytes
import Rim.Wire.Error

/-!
# Telemetry

* `Counters`: what encodes and decodes have added up to.
* `Counters.noteEncode`, `Counters.noteDecode`, `Counters.noteSkipped`: one more event.
* `Counters.merge`: the counters of two runs together.
* `Counters.write`, `Counters.read?`: the export format, variable-width numbers in order.
* `Snapshot`: counters with the rates derived from them.

Counters are words of 64 bits and wrap around.
-/

namespace Rim

/-- What encodes and decodes have added up to. -/
structure Counters where
  cborEncoded : UInt64 := 0
  cborDecoded : UInt64 := 0
  jsonEncoded : UInt64 := 0
  jsonDecoded : UInt64 := 0
  bytesProduced : UInt64 := 0
  bytesConsumed : UInt64 := 0
  encodeFailures : UInt64 := 0
  decodeFailures : UInt64 := 0
  unknownFieldsSkipped : UInt64 := 0
  deriving DecidableEq, Repr

namespace Counters

def zero : Counters := {}

/-! ## Events -/

/-- An encode with the length of its output, or a failed one. -/
def noteEncode (c : Counters) (f : Form) : (produced : Option Nat) → Counters
  | none => { c with encodeFailures := c.encodeFailures + 1 }
  | some length =>
    let c := { c with bytesProduced := c.bytesProduced + UInt64.ofNat length }
    match f with
    | .binary => { c with cborEncoded := c.cborEncoded + 1 }
    | .text => { c with jsonEncoded := c.jsonEncoded + 1 }

/-- A decode with the length of its input. -/
def noteDecode (c : Counters) (f : Form) (consumed : Nat) (ok : Bool) : Counters :=
  let c := { c with bytesConsumed := c.bytesConsumed + UInt64.ofNat consumed }
  if !ok then { c with decodeFailures := c.decodeFailures + 1 }
  else match f with
    | .binary => { c with cborDecoded := c.cborDecoded + 1 }
    | .text => { c with jsonDecoded := c.jsonDecoded + 1 }

/-- Unknown fields passed over. -/
def noteSkipped (c : Counters) (count : Nat) : Counters :=
  { c with unknownFieldsSkipped := c.unknownFieldsSkipped + UInt64.ofNat count }

/-! ## Sums -/

/-- The counters of two runs together. -/
def merge (c d : Counters) : Counters where
  cborEncoded := c.cborEncoded + d.cborEncoded
  cborDecoded := c.cborDecoded + d.cborDecoded
  jsonEncoded := c.jsonEncoded + d.jsonEncoded
  jsonDecoded := c.jsonDecoded + d.jsonDecoded
  bytesProduced := c.bytesProduced + d.bytesProduced
  bytesConsumed := c.bytesConsumed + d.bytesConsumed
  encodeFailures := c.encodeFailures + d.encodeFailures
  decodeFailures := c.decodeFailures + d.decodeFailures
  unknownFieldsSkipped := c.unknownFieldsSkipped + d.unknownFieldsSkipped

/-- Encoded records of both forms. -/
def recordsEncoded (c : Counters) : UInt64 := c.cborEncoded + c.jsonEncoded

/-- Decoded records of both forms. -/
def recordsDecoded (c : Counters) : UInt64 := c.cborDecoded + c.jsonDecoded

/-! ## Export -/

/-- The counters in the order of the export. -/
def toList (c : Counters) : List UInt64 :=
  [c.cborEncoded, c.cborDecoded, c.jsonEncoded, c.jsonDecoded, c.bytesProduced, c.bytesConsumed,
   c.encodeFailures, c.decodeFailures, c.unknownFieldsSkipped]

/-- The counters of a list in the order of the export. -/
def ofList? : List UInt64 → Option Counters
  | [a, b, c, d, e, f, g, h, i] => some ⟨a, b, c, d, e, f, g, h, i⟩
  | _ => none

@[simp] theorem ofList?_toList (c : Counters) : ofList? c.toList = some c := rfl

/-- The octets of a number, least significant first. -/
def littleEndian (width n : Nat) : Bytes := (Bytes.bigEndian width n).reverse

/-- A number of variable width: one octet up to 250, else a mark and 2, 4 or 8 octets. -/
def writeNumber (n : UInt64) : Bytes :=
  let n := n.toNat
  if n < 251 then [UInt8.ofNat n]
  else if n < UInt16.size then 0xfb :: littleEndian 2 n
  else if n < UInt32.size then 0xfc :: littleEndian 4 n
  else 0xfd :: littleEndian 8 n

/-- The octets of the counters. -/
def write (c : Counters) : Bytes := c.toList.flatMap writeNumber

/-- The next `width` octets as a number. -/
def readWide (width : Nat) (bs : Bytes) : Option (UInt64 × Bytes) :=
  if width ≤ bs.length then
    some (UInt64.ofNat (Bytes.toNat (bs.take width).reverse), bs.drop width)
  else none

/-- A number of variable width. -/
def readNumber : Bytes → Option (UInt64 × Bytes)
  | [] => none
  | b :: rest =>
    if b < 0xfb then some (UInt64.ofNat b.toNat, rest)
    else if b = 0xfb then readWide 2 rest
    else if b = 0xfc then readWide 4 rest
    else if b = 0xfd then readWide 8 rest
    else none

/-- As many numbers as asked for. -/
def readNumbers : (count : Nat) → Bytes → Option (List UInt64)
  | 0, _ => some []
  | count + 1, bs => do
    let (n, bs) ← readNumber bs
    return n :: (← readNumbers count bs)

/-- The counters of exported octets. -/
def read? (bs : Bytes) : Option Counters := do ofList? (← readNumbers 9 bs)

end Counters

/-- Counters with the rates derived from them. -/
structure Snapshot where
  counters : Counters
  /-- Failed encodes among all. -/
  encodeFailureRate : Binary64
  /-- Failed decodes among all. -/
  decodeFailureRate : Binary64
  /-- The mean length of an encoded record. -/
  meanEncodedLength : Binary64
  deriving DecidableEq, Repr

namespace Snapshot

/-- A quotient of counters, both rounded to doubles first; zero if there is nothing to divide by. -/
def rate (part whole : UInt64) : Binary64 :=
  if whole = 0 then Binary64.zero
  else (Binary64.ofNat part.toNat).div (Binary64.ofNat whole.toNat)

/-- The snapshot of some counters. -/
def ofCounters (c : Counters) : Snapshot where
  counters := c
  encodeFailureRate := rate c.encodeFailures (c.recordsEncoded + c.encodeFailures)
  decodeFailureRate := rate c.decodeFailures (c.recordsDecoded + c.decodeFailures)
  meanEncodedLength := rate c.bytesProduced c.recordsEncoded

/-- Whether both failure rates lie between zero and one. -/
def isSane (s : Snapshot) : Bool :=
  s.encodeFailureRate.atMostOne && s.decodeFailureRate.atMostOne

end Snapshot

end Rim
