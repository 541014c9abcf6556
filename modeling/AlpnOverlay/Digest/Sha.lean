import AlpnOverlay.Digest.BlockHash

/-!
The secure hash algorithms over words of 32 and of 64 bits. All of them expand a block of sixteen
words to one word for each round.
-/
namespace AlpnOverlay.Digest

/-- The first `count` words of a sequence that starts with `window` and goes on with `next` of the
words in front. -/
def expand {α : Type} (next : List α → α) : (count : Nat) → (window : List α) → List α
  | 0, _ => []
  | _ + 1, [] => []
  | count + 1, w :: window => w :: expand next count (window ++ [next (w :: window)])

/-- The words of a block, each of `width` bytes. -/
def words {α : Type} (ofNat : Nat → α) (width : Nat) : (count : Nat) → Bytes → List α
  | 0, _ => []
  | count + 1, block =>
    ofNat (BigEndian.decode (block.take width)) :: words ofNat width count (block.drop width)

namespace Sha1

def rotateLeft (x n : UInt32) : UInt32 := x <<< n ||| x >>> (32 - n)

def next (window : List UInt32) : UInt32 :=
  rotateLeft
    (window.getD 13 0 ^^^ window.getD 8 0 ^^^ window.getD 2 0 ^^^ window.getD 0 0) 1

def round (number : Nat) (word : UInt32) : List UInt32 → List UInt32
  | [a, b, c, d, e] =>
    let (f, k) : UInt32 × UInt32 :=
      if number < 20 then (b &&& c ^^^ ~~~b &&& d, 0x5a827999)
      else if number < 40 then (b ^^^ c ^^^ d, 0x6ed9eba1)
      else if number < 60 then (b &&& c ^^^ b &&& d ^^^ c &&& d, 0x8f1bbcdc)
      else (b ^^^ c ^^^ d, 0xca62c1d6)
    [rotateLeft a 5 + f + e + k + word, a, rotateLeft b 30, c, d]
  | chain => chain

def compress (chain : List UInt32) (block : Bytes) : List UInt32 :=
  let schedule := expand next 80 (words UInt32.ofNat 4 16 block)
  let mixed := schedule.zipIdx.foldl (fun chain (word, number) => round number word chain) chain
  List.zipWith (· + ·) chain mixed

end Sha1

def sha1 : BlockHash where
  Chain := List UInt32
  blockLength := 64
  blockLength_pos := by decide
  countLength := 8
  initial := [0x67452301, 0xefcdab89, 0x98badcfe, 0x10325476, 0xc3d2e1f0]
  compress := Sha1.compress
  output chain := chain.flatMap fun word => BigEndian.encode 4 word.toNat

/-- What tells the members of the second family apart, besides their initial values. -/
structure Sha2 (α : Type) where
  ofNat : Nat → α
  /-- The bytes in a word. -/
  width : Nat
  bits : α
  /-- Two rotations and a shift for each of the words that enter the expansion. -/
  early : α × α × α
  late : α × α × α
  /-- Three rotations for each of the registers that enter a round. -/
  first : α × α × α
  fifth : α × α × α
  constants : List α

namespace Sha2

variable {α : Type} [Add α] [Sub α] [AndOp α] [OrOp α] [XorOp α] [Complement α] [ShiftLeft α]
  [ShiftRight α] (p : Sha2 α)

def rotateRight (x n : α) : α := x >>> n ||| x <<< (p.bits - n)

def spread (x : α) : α × α × α → α
  | (l, m, n) => p.rotateRight x l ^^^ p.rotateRight x m ^^^ p.rotateRight x n

def spreadShift (x : α) : α × α × α → α
  | (l, m, n) => p.rotateRight x l ^^^ p.rotateRight x m ^^^ x >>> n

def next (window : List α) : α :=
  let zero := p.ofNat 0
  p.spreadShift (window.getD 14 zero) p.late + window.getD 9 zero +
    p.spreadShift (window.getD 1 zero) p.early + window.getD 0 zero

def round (constant word : α) : List α → List α
  | [a, b, c, d, e, f, g, h] =>
    let t := h + p.spread e p.fifth + (e &&& f ^^^ ~~~e &&& g) + constant + word
    [t + p.spread a p.first + (a &&& b ^^^ a &&& c ^^^ b &&& c), a, b, c, d + t, e, f, g]
  | chain => chain

def compress (chain : List α) (block : Bytes) : List α :=
  let schedule := expand p.next p.constants.length (words p.ofNat p.width 16 block)
  let mixed :=
    (p.constants.zip schedule).foldl
      (fun chain (constant, word) => p.round constant word chain) chain
  List.zipWith (· + ·) chain mixed

end Sha2

/-- The fractional parts of the cube roots of the first eighty primes, in 64 bits. -/
def cubeRoots : List UInt64 :=
  [0x428a2f98d728ae22, 0x7137449123ef65cd, 0xb5c0fbcfec4d3b2f, 0xe9b5dba58189dbbc,
   0x3956c25bf348b538, 0x59f111f1b605d019, 0x923f82a4af194f9b, 0xab1c5ed5da6d8118,
   0xd807aa98a3030242, 0x12835b0145706fbe, 0x243185be4ee4b28c, 0x550c7dc3d5ffb4e2,
   0x72be5d74f27b896f, 0x80deb1fe3b1696b1, 0x9bdc06a725c71235, 0xc19bf174cf692694,
   0xe49b69c19ef14ad2, 0xefbe4786384f25e3, 0x0fc19dc68b8cd5b5, 0x240ca1cc77ac9c65,
   0x2de92c6f592b0275, 0x4a7484aa6ea6e483, 0x5cb0a9dcbd41fbd4, 0x76f988da831153b5,
   0x983e5152ee66dfab, 0xa831c66d2db43210, 0xb00327c898fb213f, 0xbf597fc7beef0ee4,
   0xc6e00bf33da88fc2, 0xd5a79147930aa725, 0x06ca6351e003826f, 0x142929670a0e6e70,
   0x27b70a8546d22ffc, 0x2e1b21385c26c926, 0x4d2c6dfc5ac42aed, 0x53380d139d95b3df,
   0x650a73548baf63de, 0x766a0abb3c77b2a8, 0x81c2c92e47edaee6, 0x92722c851482353b,
   0xa2bfe8a14cf10364, 0xa81a664bbc423001, 0xc24b8b70d0f89791, 0xc76c51a30654be30,
   0xd192e819d6ef5218, 0xd69906245565a910, 0xf40e35855771202a, 0x106aa07032bbd1b8,
   0x19a4c116b8d2d0c8, 0x1e376c085141ab53, 0x2748774cdf8eeb99, 0x34b0bcb5e19b48a8,
   0x391c0cb3c5c95a63, 0x4ed8aa4ae3418acb, 0x5b9cca4f7763e373, 0x682e6ff3d6b2b8a3,
   0x748f82ee5defb2fc, 0x78a5636f43172f60, 0x84c87814a1f0ab72, 0x8cc702081a6439ec,
   0x90befffa23631e28, 0xa4506cebde82bde9, 0xbef9a3f7b2c67915, 0xc67178f2e372532b,
   0xca273eceea26619c, 0xd186b8c721c0c207, 0xeada7dd6cde0eb1e, 0xf57d4f7fee6ed178,
   0x06f067aa72176fba, 0x0a637dc5a2c898a6, 0x113f9804bef90dae, 0x1b710b35131c471b,
   0x28db77f523047d84, 0x32caab7b40c72493, 0x3c9ebe0a15c9bebc, 0x431d67c49c100d4c,
   0x4cc5d4becb3e42b6, 0x597f299cfc657e2a, 0x5fcb6fab3ad6faec, 0x6c44198c4a475817]

/-- The fractional parts of the square roots of the first eight primes, in 64 bits. -/
def squareRoots : List UInt64 :=
  [0x6a09e667f3bcc908, 0xbb67ae8584caa73b, 0x3c6ef372fe94f82b, 0xa54ff53a5f1d36f1,
   0x510e527fade682d1, 0x9b05688c2b3e6c1f, 0x1f83d9abfb41bd6b, 0x5be0cd19137e2179]

/-- Those of the next eight primes. -/
def nextSquareRoots : List UInt64 :=
  [0xcbbb9d5dc1059ed8, 0x629a292a367cd507, 0x9159015a3070dd17, 0x152fecd8f70e5939,
   0x67332667ffc00b31, 0x8eb44a8768581511, 0xdb0c2e0d64f98fa7, 0x47b5481dbefa4fa4]

/-- The initial values that set the digest of 256 bits on 64-bit words apart. -/
def truncatedRoots : List UInt64 :=
  [0x22312194fc2bf72c, 0x9f555fa3c84c64c2, 0x2393b86b6f53b151, 0x963877195940eabd,
   0x96283ee2a88effe3, 0xbe5e1e2553863992, 0x2b0199fc2c85b8aa, 0x0eb72ddc81c52ca2]

def upperHalf (x : UInt64) : UInt32 := (x >>> 32).toUInt32

/-- Words of 32 bits; the constants are the upper halves of the first 64. -/
def narrow : Sha2 UInt32 where
  ofNat := UInt32.ofNat
  width := 4
  bits := 32
  early := (7, 18, 3)
  late := (17, 19, 10)
  first := (2, 13, 22)
  fifth := (6, 11, 25)
  constants := (cubeRoots.take 64).map upperHalf

def wide : Sha2 UInt64 where
  ofNat := UInt64.ofNat
  width := 8
  bits := 64
  early := (1, 8, 7)
  late := (19, 61, 6)
  first := (28, 34, 39)
  fifth := (14, 18, 41)
  constants := cubeRoots

def sha256 : BlockHash where
  Chain := List UInt32
  blockLength := 64
  blockLength_pos := by decide
  countLength := 8
  initial := squareRoots.map upperHalf
  compress := narrow.compress
  output chain := chain.flatMap fun word => BigEndian.encode 4 word.toNat

/-- A digest of `length` bytes on 64-bit words. -/
def sha2Wide (initial : List UInt64) (length : Nat) : BlockHash where
  Chain := List UInt64
  blockLength := 128
  blockLength_pos := by decide
  countLength := 16
  initial
  compress := wide.compress
  output chain := (chain.flatMap fun word => BigEndian.encode 8 word.toNat).take length

def sha384 : BlockHash := sha2Wide nextSquareRoots 48
def sha512 : BlockHash := sha2Wide squareRoots 64
def sha512Short : BlockHash := sha2Wide truncatedRoots 32

/-- The algorithms a handshake can hash with. -/
inductive Algorithm where
  | sha1
  | sha256
  | sha384
  | sha512
  | sha512Short
  deriving DecidableEq, Repr

namespace Algorithm

def blockHash : Algorithm → BlockHash
  | sha1 => Digest.sha1
  | sha256 => Digest.sha256
  | sha384 => Digest.sha384
  | sha512 => Digest.sha512
  | sha512Short => Digest.sha512Short

def name : Algorithm → String
  | sha1 => "SHA1"
  | sha256 => "SHA256"
  | sha384 => "SHA384"
  | sha512 => "SHA512"
  | sha512Short => "SHA512_256"

end Algorithm
end AlpnOverlay.Digest
