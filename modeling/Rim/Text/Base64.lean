import Rim.Bytes

/-!
# Base64 text

The standard alphabet with mandatory canonical padding.

* `Base64.encode`: four symbols for three octets; the last quad is filled with `=`.
* `Base64.decode`: accepts exactly the canonical spellings, and otherwise names the first defect:
  a wrong symbol, a length that no octets have, missing padding, or stray bits in the last symbol.
-/

namespace Rim.Base64

/-- Why a text is not canonical base64. Offsets count octets of the text. -/
inductive Error where
  /-- `byte` may not stand at `offset`. -/
  | invalidSymbol (byte : UInt8) (offset : Nat)
  /-- The symbols end after `count`, inside an octet. -/
  | invalidLength (count : Nat)
  /-- The last quad is not filled up. -/
  | invalidPadding
  /-- The last symbol `byte` at `offset` holds bits of no octet. -/
  | invalidLastSymbol (byte : UInt8) (offset : Nat)
  deriving DecidableEq, Repr

/-- The text of a reading error. -/
def Error.message : Error → String
  | .invalidSymbol byte offset => s!"Invalid symbol {byte.toNat}, offset {offset}."
  | .invalidLength count => s!"Invalid input length: {count}"
  | .invalidPadding => "Invalid padding"
  | .invalidLastSymbol byte offset => s!"Invalid last symbol {byte.toNat}, offset {offset}."

/-! ## The alphabet -/

/-- The octet of the padding character. -/
def pad : UInt8 := 0x3d

/-- The octet of the symbol for a number below 64. -/
def symbol (n : Nat) : UInt8 :=
  UInt8.ofNat <|
    if n < 26 then n + 0x41
    else if n < 52 then n - 26 + 0x61
    else if n < 62 then n - 52 + 0x30
    else if n = 62 then 0x2b
    else 0x2f

/-- The number that a symbol stands for. -/
def value? (b : UInt8) : Option Nat :=
  let n := b.toNat
  if 0x41 ≤ n ∧ n ≤ 0x5a then some (n - 0x41)
  else if 0x61 ≤ n ∧ n ≤ 0x7a then some (n - 0x61 + 26)
  else if 0x30 ≤ n ∧ n ≤ 0x39 then some (n - 0x30 + 52)
  else if n = 0x2b then some 62
  else if n = 0x2f then some 63
  else none

/-- Every symbol reads back. -/
theorem value?_symbol : ∀ n < 64, value? (symbol n) = some n := by decide

/-! ## Writing -/

/-- The symbols of a byte string. -/
def encodeBytes : Bytes → Bytes
  | a :: b :: c :: rest =>
    let n := a.toNat * 65536 + b.toNat * 256 + c.toNat
    symbol (n / 262144) :: symbol (n / 4096 % 64) :: symbol (n / 64 % 64) :: symbol (n % 64)
      :: encodeBytes rest
  | [a, b] =>
    let n := a.toNat * 1024 + b.toNat * 4
    [symbol (n / 4096), symbol (n / 64 % 64), symbol (n % 64), pad]
  | [a] =>
    let n := a.toNat * 16
    [symbol (n / 64), symbol (n % 64), pad, pad]
  | [] => []

/-- The base64 text of a byte string. -/
def encode (bs : Bytes) : String := String.ofList ((encodeBytes bs).map fun b => Char.ofNat b.toNat)

/-! ## Reading -/

/-- The value of the symbol at `offset`. -/
def readSymbol (b : UInt8) (offset : Nat) : Except Error Nat :=
  match value? b with
  | some n => .ok n
  | none => .error (.invalidSymbol b offset)

/-- The values of the symbols of a last quad, before its padding. `start` is the quad's offset and
`index` the position reached in it. Padding may begin at the third position and lasts to the end. -/
def readLastSymbols (start : Nat) : (index : Nat) → Bytes → Except Error (List Nat)
  | _, [] => .ok []
  | index, b :: rest =>
    if b = pad then
      if index < 2 then .error (.invalidSymbol b (start + index))
      else if rest.all (· == pad) then .ok []
      else .error (.invalidSymbol pad (start + index))
    else do
      let n ← readSymbol b (start + index)
      return n :: (← readLastSymbols start (index + 1) rest)

/-- The octets of the symbols of a last quad, and the bits that belong to none. -/
def lastOctets : List Nat → Bytes × Nat
  | [a, b] => ([UInt8.ofNat (a * 4 + b / 16)], b % 16)
  | [a, b, c] =>
    ([UInt8.ofNat (a * 4 + b / 16), UInt8.ofNat (b % 16 * 16 + c / 4)], c % 4)
  | [a, b, c, d] =>
    ([UInt8.ofNat (a * 4 + b / 16), UInt8.ofNat (b % 16 * 16 + c / 4), UInt8.ofNat (c % 4 * 64 + d)], 0)
  | _ => ([], 0)

/-- Reads the last quad, which holds one to four octets of text. -/
def decodeLast (start : Nat) (quad : Bytes) : Except Error Bytes := do
  let values ← readLastSymbols start 0 quad
  if values.length < 2 then throw (.invalidLength (start + values.length))
  if quad.length < 4 then throw .invalidPadding
  let (octets, stray) := lastOctets values
  if stray = 0 then return octets
  throw (.invalidLastSymbol (quad.getD (values.length - 1) 0) (start + values.length - 1))

/-- Reads quads from `offset` on; only the last one may be padded. -/
def decodeQuads : (offset : Nat) → Bytes → Except Error Bytes
  | offset, a :: b :: c :: d :: next :: rest => do
    let va ← readSymbol a offset
    let vb ← readSymbol b (offset + 1)
    let vc ← readSymbol c (offset + 2)
    let vd ← readSymbol d (offset + 3)
    return (lastOctets [va, vb, vc, vd]).1 ++ (← decodeQuads (offset + 4) (next :: rest))
  | _, [] => .ok []
  | offset, quad => decodeLast offset quad

/-- Reads canonical base64. A single octet after full quads that is no symbol is reported first. -/
def decode (s : String) : Except Error Bytes := do
  let bs := Bytes.ofString s
  if bs.length % 4 = 1 then
    let last := bs.getLastD 0
    if last ≠ pad ∧ value? last = none then throw (.invalidSymbol last (bs.length - 1))
  decodeQuads 0 bs

end Rim.Base64
