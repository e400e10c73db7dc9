import Rim.Bytes
import Rim.Text.Quoted
import Rim.Text.Split

/-!
# Object identifiers

An object identifier is a list of arcs. It has a dotted-decimal text and a binary form, the BER
content octets: the first two arcs share one number, and every number is written in groups of
seven bits with the continuation bit on all but the last.

* `Oid.arcs`: the arcs that a dotted text spells; signs and leading zeros are tolerated.
* `Oid.toBer`, `Oid.ofBer`: from text to octets and back.
* `Oid.canonical`: the one text of an identifier without signs or leading zeros.
-/

namespace Rim.Oid

/-- Why a text or an octet string is no object identifier. -/
inductive Error where
  /-- An arc is not a number of 64 bits. -/
  | badArc (arc : String)
  /-- There are fewer than two arcs. -/
  | tooFewArcs (dotted : String)
  /-- The first arc is above 2, or the second is above 39 under a first arc of 0 or 1. -/
  | invalidRoot (dotted : String)
  /-- The number shared by the first two arcs does not fit into 64 bits. -/
  | rootOverflow (dotted : String)
  | empty
  /-- The last octet asks for another one. -/
  | truncated
  /-- A number begins with a group of zero bits. -/
  | nonMinimal
  /-- A number does not fit into 64 bits. -/
  | overflow
  deriving DecidableEq, Repr

/-- The text of a reading error. -/
def Error.message : Error → String
  | .badArc arc => s!"bad OID arc {Text.quote arc}"
  | .tooFewArcs dotted => s!"OID {Text.quote dotted} needs at least two arcs"
  | .invalidRoot dotted => s!"OID {Text.quote dotted} has an invalid root"
  | .rootOverflow dotted => s!"OID {Text.quote dotted} root arc overflows"
  | .empty => "empty OID"
  | .truncated => "truncated OID sub-identifier"
  | .nonMinimal => "non-minimal OID sub-identifier"
  | .overflow => "OID sub-identifier overflows"

/-- Arcs and sub-identifiers are below this bound. -/
def limit : Nat := UInt64.size

/-! ## Dotted text -/

/-- The number of one arc. A leading plus sign and leading zeros are tolerated. -/
def readArc (arc : List Char) : Except Error Nat :=
  let digits := match arc with
    | '+' :: rest => rest
    | other => other
  match Text.readNat? digits with
  | some n => if n < limit then .ok n else .error (.badArc (String.ofList arc))
  | none => .error (.badArc (String.ofList arc))

/-- The first two arcs and the others; a bad arc is reported before a wrong root. -/
def arcs (dotted : String) : Except Error (Nat × Nat × List Nat) := do
  match ← (Text.split '.' dotted.toList).mapM readArc with
  | root :: second :: rest =>
    if 2 < root ∨ (root < 2 ∧ 40 ≤ second) then throw (.invalidRoot dotted)
    if limit ≤ 40 * root + second then throw (.rootOverflow dotted)
    return (root, second, rest)
  | _ => throw (.tooFewArcs dotted)

/-- The dotted text of a list of arcs. -/
def dotted (arcs : List Nat) : String := ".".intercalate (arcs.map toString)

/-! ## Groups of seven bits -/

/-- The groups of a number above its lowest one, most significant first, in front of `tail`. -/
def highGroups (n : Nat) (tail : Bytes) : Bytes :=
  if n = 0 then tail
  else highGroups (n / 128) (UInt8.ofNat (n % 128 + 128) :: tail)
termination_by n

/-- The octets of one sub-identifier. -/
def groups (n : Nat) : Bytes := highGroups (n / 128) [UInt8.ofNat (n % 128)]

/-- Reads sub-identifiers to the end. `acc` holds the bits read of the current one, `starting`
tells that there are none yet. -/
def readGroups : (acc : Nat) → (starting : Bool) → Bytes → Except Error (List Nat)
  | _, _, [] => .ok []
  | acc, starting, b :: rest =>
    if starting ∧ b = 0x80 then .error .nonMinimal
    else if limit ≤ acc * 128 then .error .overflow
    else
      let acc := acc * 128 + b.toNat % 128
      if b.toNat < 128 then return acc :: (← readGroups 0 true rest)
      else readGroups acc false rest

/-! ## Binary form -/

/-- The arcs that share the first sub-identifier. -/
def splitRoot (n : Nat) : Nat × Nat :=
  if n < 40 then (0, n) else if n < 80 then (1, n - 40) else (2, n - 80)

/-- The content octets of a dotted text. -/
def toBer (dotted : String) : Except Error Bytes := do
  let (root, second, rest) ← arcs dotted
  return (((40 * root + second) :: rest).flatMap groups)

/-- The dotted text of content octets. A missing end is reported before any other defect. -/
def ofBer (ber : Bytes) : Except Error String := do
  match ber.getLast? with
  | none => throw .empty
  | some last => if 128 ≤ last.toNat then throw .truncated
  match ← readGroups 0 true ber with
  | [] => throw .empty
  | first :: rest =>
    let (root, second) := splitRoot first
    return dotted (root :: second :: rest)

/-- The text without signs or leading zeros. -/
def canonical (dotted : String) : Except Error String := do ofBer (← toBer dotted)

end Rim.Oid
