import Rim.Bytes

/-!
# The secure hash family

SHA-256 on words of 32 bits, and SHA-384 and SHA-512 on words of 64 bits.

* `Sha.Variant`: what distinguishes the two word sizes: rotations, constants and padding.
* `Sha.run`: the chaining state after a message.
* `Sha.sha256`, `Sha.sha384`, `Sha.sha512`: digests.
-/

namespace Rim.Sha

/-- A member of the family: the word type with its operations, and the tables. -/
structure Variant where
  /-- Octets of a word. -/
  width : Nat
  /-- Two rotations and a shift, for the words 15 and 2 places back in the schedule. -/
  lower0 : Nat × Nat × Nat
  lower1 : Nat × Nat × Nat
  /-- Three rotations, for the first and the fifth word of the state. -/
  upper0 : Nat × Nat × Nat
  upper1 : Nat × Nat × Nat
  roundConstants : List Nat

namespace Variant

/-- Bits of a word. -/
def bits (v : Variant) : Nat := 8 * v.width

/-- The number of different words. -/
def modulus (v : Variant) : Nat := 1 <<< v.bits

/-- Octets of a block of sixteen words. -/
def blockSize (v : Variant) : Nat := 16 * v.width

/-- The sum of words, modulo the word size. -/
def add (v : Variant) (x y : Nat) : Nat := (x + y) % v.modulus

/-- Rotation to the right by `k` bits. -/
def rotate (v : Variant) (x k : Nat) : Nat :=
  (x >>> k) ||| ((x <<< (v.bits - k)) % v.modulus)

/-- The complement of a word. -/
def complement (v : Variant) (x : Nat) : Nat := v.modulus - 1 - x

/-- Two rotations and a shift. -/
def small (v : Variant) (r : Nat × Nat × Nat) (x : Nat) : Nat :=
  v.rotate x r.1 ^^^ v.rotate x r.2.1 ^^^ (x >>> r.2.2)

/-- Three rotations. -/
def large (v : Variant) (r : Nat × Nat × Nat) (x : Nat) : Nat :=
  v.rotate x r.1 ^^^ v.rotate x r.2.1 ^^^ v.rotate x r.2.2

end Variant

/-! ## The compression function -/

/-- The eight words of a chaining state. -/
structure State where
  a : Nat
  b : Nat
  c : Nat
  d : Nat
  e : Nat
  f : Nat
  g : Nat
  h : Nat
  deriving DecidableEq, Repr

/-- The next word of the schedule from the sixteen before it, the latest first. -/
def nextWord (v : Variant) (window : List Nat) : Nat :=
  let at_ (i : Nat) := window.getD (i - 1) 0
  v.add (v.add (v.small v.lower1 (at_ 2)) (at_ 7)) (v.add (v.small v.lower0 (at_ 15)) (at_ 16))

/-- The words of the schedule after `window`, which holds the latest sixteen, latest first. -/
def schedule (v : Variant) : (count : Nat) → (window : List Nat) → List Nat
  | 0, _ => []
  | count + 1, window =>
    let w := nextWord v window
    w :: schedule v count ((w :: window).take 16)

/-- One round with its constant and schedule word. -/
def round (v : Variant) (s : State) (kw : Nat × Nat) : State :=
  let choice := (s.e &&& s.f) ^^^ (v.complement s.e &&& s.g)
  let majority := (s.a &&& s.b) ^^^ (s.a &&& s.c) ^^^ (s.b &&& s.c)
  let t₁ := v.add (v.add s.h (v.large v.upper1 s.e)) (v.add choice (v.add kw.1 kw.2))
  let t₂ := v.add (v.large v.upper0 s.a) majority
  ⟨v.add t₁ t₂, s.a, s.b, s.c, v.add s.d t₁, s.e, s.f, s.g⟩

/-- The words of a block. -/
def words (v : Variant) (block : Bytes) : List Nat :=
  (List.range 16).map fun i => Bytes.toNat ((block.drop (i * v.width)).take v.width)

/-- The state after one block. -/
def compress (v : Variant) (s : State) (block : Bytes) : State :=
  let first := words v block
  let all := first ++ schedule v (v.roundConstants.length - 16) first.reverse
  let t := (v.roundConstants.zip all).foldl (round v) s
  ⟨v.add s.a t.a, v.add s.b t.b, v.add s.c t.c, v.add s.d t.d,
   v.add s.e t.e, v.add s.f t.f, v.add s.g t.g, v.add s.h t.h⟩

/-! ## Messages -/

/-- A one bit, zeros, and the length in bits as two words, up to whole blocks. -/
def padding (v : Variant) (length : Nat) : Bytes :=
  let used := length + 1 + 2 * v.width
  let fill := (v.blockSize - used % v.blockSize) % v.blockSize
  0x80 :: List.replicate fill 0 ++ Bytes.bigEndian (2 * v.width) (8 * length)

/-- The state after `count` blocks of a message. -/
def runBlocks (v : Variant) : (count : Nat) → State → Bytes → State
  | 0, s, _ => s
  | count + 1, s, bs =>
    runBlocks v count (compress v s (bs.take v.blockSize)) (bs.drop v.blockSize)

/-- The state after a padded message. -/
def run (v : Variant) (initial : State) (message : Bytes) : State :=
  let bs := message ++ padding v message.length
  runBlocks v (bs.length / v.blockSize) initial bs

/-- The octets of a state. -/
def output (v : Variant) (s : State) : Bytes :=
  [s.a, s.b, s.c, s.d, s.e, s.f, s.g, s.h].flatMap (Bytes.bigEndian v.width)

/-! ## Members -/

/-- The first 32 bits of the fractional parts of the cube roots of the first 64 primes. -/
def constants32 : List Nat :=
  [0x428a2f98, 0x71374491, 0xb5c0fbcf, 0xe9b5dba5, 0x3956c25b, 0x59f111f1, 0x923f82a4, 0xab1c5ed5,
   0xd807aa98, 0x12835b01, 0x243185be, 0x550c7dc3, 0x72be5d74, 0x80deb1fe, 0x9bdc06a7, 0xc19bf174,
   0xe49b69c1, 0xefbe4786, 0x0fc19dc6, 0x240ca1cc, 0x2de92c6f, 0x4a7484aa, 0x5cb0a9dc, 0x76f988da,
   0x983e5152, 0xa831c66d, 0xb00327c8, 0xbf597fc7, 0xc6e00bf3, 0xd5a79147, 0x06ca6351, 0x14292967,
   0x27b70a85, 0x2e1b2138, 0x4d2c6dfc, 0x53380d13, 0x650a7354, 0x766a0abb, 0x81c2c92e, 0x92722c85,
   0xa2bfe8a1, 0xa81a664b, 0xc24b8b70, 0xc76c51a3, 0xd192e819, 0xd6990624, 0xf40e3585, 0x106aa070,
   0x19a4c116, 0x1e376c08, 0x2748774c, 0x34b0bcb5, 0x391c0cb3, 0x4ed8aa4a, 0x5b9cca4f, 0x682e6ff3,
   0x748f82ee, 0x78a5636f, 0x84c87814, 0x8cc70208, 0x90befffa, 0xa4506ceb, 0xbef9a3f7, 0xc67178f2]

/-- The first 64 bits of the fractional parts of the cube roots of the first 80 primes. -/
def constants64 : List Nat :=
  [0x428a2f98d728ae22, 0x7137449123ef65cd, 0xb5c0fbcfec4d3b2f, 0xe9b5dba58189dbbc,
   0x3956c25bf348b538, 0x59f111f1b605d019, 0x923f82a4af194f9b, 0xab1c5ed5da6d8118,
   0xd807aa98a3030242, 0x12835b0145706fbe, 0x243185be4ee4b28c, 0x550c7dc3d5ffb4e2,
   0x72be5d74f27b896f, 0x80deb1fe3b1696b1, 0x9bdc06a725c71235, 0xc19bf174cf692694,
   0xe49b69c19ef14ad2, 0xefbe4786384f25e3, 0x0fc19dc68b8cd5b5, 0x240ca1cc77ac9c65,
   0x2de92c6f592b0275, 0x4a7484aa6ea6e483, 0x5cb0a9dcbd41fbd4, 0x76f988da831153b5,
   0x983e5152ee66dfab, 0xa831c66d2db43210, 0xb00327c898fb213f, 0xbf597fc7beef0ee4,
   0xc6e00bf33da88fc2, 0xd5a79147930aa725, 0x06ca6351e003826f, 0x142929670a0e6e70,
   0x27b70a8546d22ffc, 0x2e1b21385c26c926, 0x4d2c6dfc5ac42aed, 0x53380d139d95b3df,
   0x650a73548baf63de, 0x766a0abb3c77b2a8, 0x81c2c92e47edaee6, 0x92722c851482353b,
   0xa2bfe8a14cf10364, 0xa81a664bbc423001, 0xc24b8b70d0f89791, 0xc76c51a30654be30,
   0xd192e819d6ef5218, 0xd69906245565a910, 0xf40e35855771202a, 0x106aa07032bbd1b8,
   0x19a4c116b8d2d0c8, 0x1e376c085141ab53, 0x2748774cdf8eeb99, 0x34b0bcb5e19b48a8,
   0x391c0cb3c5c95a63, 0x4ed8aa4ae3418acb, 0x5b9cca4f7763e373, 0x682e6ff3d6b2b8a3,
   0x748f82ee5defb2fc, 0x78a5636f43172f60, 0x84c87814a1f0ab72, 0x8cc702081a6439ec,
   0x90befffa23631e28, 0xa4506cebde82bde9, 0xbef9a3f7b2c67915, 0xc67178f2e372532b,
   0xca273eceea26619c, 0xd186b8c721c0c207, 0xeada7dd6cde0eb1e, 0xf57d4f7fee6ed178,
   0x06f067aa72176fba, 0x0a637dc5a2c898a6, 0x113f9804bef90dae, 0x1b710b35131c471b,
   0x28db77f523047d84, 0x32caab7b40c72493, 0x3c9ebe0a15c9bebc, 0x431d67c49c100d4c,
   0x4cc5d4becb3e42b6, 0x597f299cfc657e2a, 0x5fcb6fab3ad6faec, 0x6c44198c4a475817]

def variant32 : Variant :=
  ⟨4, (7, 18, 3), (17, 19, 10), (2, 13, 22), (6, 11, 25), constants32⟩

def variant64 : Variant :=
  ⟨8, (1, 8, 7), (19, 61, 6), (28, 34, 39), (14, 18, 41), constants64⟩

def initial256 : State :=
  ⟨0x6a09e667, 0xbb67ae85, 0x3c6ef372, 0xa54ff53a,
   0x510e527f, 0x9b05688c, 0x1f83d9ab, 0x5be0cd19⟩

def initial384 : State :=
  ⟨0xcbbb9d5dc1059ed8, 0x629a292a367cd507, 0x9159015a3070dd17, 0x152fecd8f70e5939,
   0x67332667ffc00b31, 0x8eb44a8768581511, 0xdb0c2e0d64f98fa7, 0x47b5481dbefa4fa4⟩

def initial512 : State :=
  ⟨0x6a09e667f3bcc908, 0xbb67ae8584caa73b, 0x3c6ef372fe94f82b, 0xa54ff53a5f1d36f1,
   0x510e527fade682d1, 0x9b05688c2b3e6c1f, 0x1f83d9abfb41bd6b, 0x5be0cd19137e2179⟩

def sha256 (message : Bytes) : Bytes := output variant32 (run variant32 initial256 message)

def sha384 (message : Bytes) : Bytes :=
  (output variant64 (run variant64 initial384 message)).take 48

def sha512 (message : Bytes) : Bytes := output variant64 (run variant64 initial512 message)

@[simp] theorem length_output (v : Variant) (s : State) : (output v s).length = 8 * v.width := by
  simp [output]
  omega

end Rim.Sha
