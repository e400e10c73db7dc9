import Rim.Bytes
import Rim.Text.Hex

/-!
# Universally unique identifiers

* `Uuid`: sixteen octets.
* `Uuid.ofBytes`, `Uuid.parse`: from octets and from text.
* `Uuid.toString`: the lower-case hyphenated text.

A text is 32 digits, or five groups of 8, 4, 4, 4 and 12 digits with hyphens between them, which
may stand in braces or after `urn:uuid:`. A text that is none of these is diagnosed afterwards.
-/

namespace Rim

/-- An identifier of sixteen octets. -/
structure Uuid where
  octets : Bytes
  length_octets : octets.length = 16
  deriving DecidableEq

namespace Uuid

/-- Why a text or an octet string is no identifier. -/
inductive Error where
  /-- A text whose length in octets rules out every form. -/
  | length (found : Nat)
  /-- An octet string of another length than sixteen. -/
  | byteLength (found : Nat)
  /-- A character that is neither a digit nor a hyphen. -/
  | character (found : Char) (offset : Nat)
  | groupCount (found : Nat)
  | groupLength (group expected found : Nat)
  deriving DecidableEq, Repr

/-- The text of a reading error. -/
def Error.message : Error → String
  | .length found => s!"invalid length: found {found}"
  | .byteLength found => s!"invalid length: expected 16 bytes, found {found}"
  | .character found offset =>
    "invalid character: found \x60" ++ String.ofList [found] ++ s!"\x60 at {offset}"
  | .groupCount found => s!"invalid group count: expected 5, found {found}"
  | .groupLength group expected found =>
    s!"invalid group length in group {group}: expected {expected}, found {found}"

/-- The identifier with all bits clear. -/
def nil : Uuid := ⟨List.replicate 16 0, by simp⟩

instance : Inhabited Uuid := ⟨nil⟩

def isNil (u : Uuid) : Bool := u.octets.all (· == 0)

/-- The identifier of an octet string. -/
def ofBytes (bs : Bytes) : Except Error Uuid :=
  if h : bs.length = 16 then .ok ⟨bs, h⟩ else .error (.byteLength bs.length)

/-- The lower-case text in five groups. -/
def toString (u : Uuid) : String :=
  let group (start stop : Nat) := Hex.encode ((u.octets.drop start).take (stop - start))
  "-".intercalate [group 0 4, group 4 6, group 6 8, group 8 10, group 10 16]

/-! ## Reading text -/

/-- The octet of the hyphen. -/
def hyphen : UInt8 := 0x2d

/-- The octets spelled by 32 digits. -/
def ofDigits? (digits : Bytes) : Option Uuid :=
  match Hex.decodePairs 0 digits with
  | .ok bs => if h : bs.length = 16 ∧ digits.length = 32 then some ⟨bs, h.1⟩ else none
  | .error _ => none

/-- The octets spelled by five hyphenated groups. -/
def ofHyphenated? (text : Bytes) : Option Uuid :=
  let isHyphen (i : Nat) : Bool := text.getD i 0 == hyphen
  if isHyphen 8 && isHyphen 13 && isHyphen 18 && isHyphen 23 then
    ofDigits? ((text.take 8) ++ (text.drop 9).take 4 ++ (text.drop 14).take 4
      ++ (text.drop 19).take 4 ++ text.drop 24)
  else none

/-- What follows `urn:uuid:`, in letters of either case. -/
def afterUrn? (text : Bytes) : Option Bytes :=
  let lower := (text.take 9).map fun b => if 0x41 ≤ b ∧ b ≤ 0x5a then b + 0x20 else b
  if lower = Bytes.ofString "urn:uuid:" then some (text.drop 9) else none

/-- What stands between braces. -/
def betweenBraces? (text : Bytes) : Option Bytes :=
  match text with
  | open_ :: rest =>
    if open_ = 0x7b ∧ rest.getLast? = some 0x7d then some rest.dropLast else none
  | [] => none

/-- The hyphenated text inside a text of a length that one of the forms has. -/
def hyphenated? (text : Bytes) : Option Bytes :=
  if text.length = 36 then some text
  else if text.length = 38 then betweenBraces? text
  else if text.length = 45 then afterUrn? text
  else none

/-- The first character that is neither a digit nor a hyphen, with its offset in octets. -/
def stray? : (offset : Nat) → List Char → Option (Char × Nat)
  | _, [] => none
  | offset, c :: rest =>
    if c = '-' ∨ (c.toNat < 128 ∧ (Hex.value? (UInt8.ofNat c.toNat)).isSome) then
      stray? (offset + c.utf8Size) rest
    else some (c, offset)

/-- The offsets at which the groups of a hyphenated text begin. -/
def groupStarts : List Nat := [0, 9, 14, 19]

/-- The lengths of the groups. -/
def groupLengths : List Nat := [8, 4, 4, 4]

/-- The first group of the first four whose hyphen is out of place. -/
def badGroup? (hyphens : List Nat) : Option Error :=
  (List.zip (List.range 4) (List.zip hyphens (List.zip groupStarts groupLengths))).findSome?
    fun (group, at_, start, expected) =>
      if at_ = start + expected then none
      else some (.groupLength group expected (at_ - start))

/-- The defect of a text that is no identifier. `inner` is the part whose digits are looked at and
`offset` its place, `total` the length of the text in octets, and `plain` tells that neither
braces, the urn nor the right length announced hyphens. -/
def diagnose (inner : Bytes) (offset total : Nat) (plain : Bool) : Error :=
  let chars := ((Bytes.toString? inner).getD "").toList
  match stray? offset chars with
  | some (c, at_) => .character c at_
  | none =>
    let hyphens := (List.range inner.length).filter fun i => inner.getD i 0 == hyphen
    if hyphens = [] ∧ plain then .length total
    else if hyphens.length ≠ 4 then .groupCount (hyphens.length + 1)
    else (badGroup? hyphens).getD (.groupLength 4 12 (total - 24))

/-- Reads the text of an identifier. -/
def parse (s : String) : Except Error Uuid :=
  let text := Bytes.ofString s
  if text.isEmpty ∨ 45 < text.length then .error (.length text.length)
  else match hyphenated? text with
    | some inner =>
      match ofHyphenated? inner with
      | some u => .ok u
      | none => .error (diagnose inner 0 inner.length false)
    | none =>
      match ofDigits? text with
      | some u => .ok u
      | none =>
        .error <| match betweenBraces? text, afterUrn? text with
          | some inner, _ => diagnose inner 1 text.length false
          | none, some inner => diagnose inner 9 text.length false
          | none, none => diagnose text 0 text.length true

end Uuid

end Rim
