import Grove.Bytes.Basic

/-! # SHA-512 and SHA-512/256

The message is padded to whole blocks of 128 bytes. Each block is expanded to 80 words and mixed
into eight words of state. SHA-512/256 starts from a state of its own, which SHA-512 with a masked
start derives from the name of the variant, and keeps the first 32 bytes.
-/

namespace Grove.Sha512

structure State where
  a : UInt64
  b : UInt64
  c : UInt64
  d : UInt64
  e : UInt64
  f : UInt64
  g : UInt64
  h : UInt64
  deriving DecidableEq, Repr

namespace State

def words (s : State) : List UInt64 :=
  [s.a, s.b, s.c, s.d, s.e, s.f, s.g, s.h]

def add (s t : State) : State :=
  ⟨s.a + t.a, s.b + t.b, s.c + t.c, s.d + t.d, s.e + t.e, s.f + t.f, s.g + t.g, s.h + t.h⟩

def mask (s : State) (w : UInt64) : State :=
  ⟨s.a ^^^ w, s.b ^^^ w, s.c ^^^ w, s.d ^^^ w, s.e ^^^ w, s.f ^^^ w, s.g ^^^ w, s.h ^^^ w⟩

def bytes (s : State) : Bytes :=
  s.words.flatMap fun w => Bytes.ofNat 8 w.toNat

@[simp] theorem length_bytes (s : State) : s.bytes.length = 64 := by
  simp [bytes, words]

end State

def rotateRight (w : UInt64) (n : UInt64) : UInt64 :=
  (w >>> n) ||| (w <<< (64 - n))

/-- Leading fractional bits of the cube roots of the first 80 primes. -/
def roundConstants : List UInt64 :=
  [
    0x428a2f98d728ae22, 0x7137449123ef65cd, 0xb5c0fbcfec4d3b2f, 0xe9b5dba58189dbbc,
    0x3956c25bf348b538, 0x59f111f1b605d019, 0x923f82a4af194f9b, 0xab1c5ed5da6d8118,
    0xd807aa98a3030242, 0x12835b0145706fbe, 0x243185be4ee4b28c, 0x550c7dc3d5ffb4e2,
    0x72be5d74f27b896f, 0x80deb1fe3b1696b1, 0x9bdc06a725c71235, 0xc19bf174cf692694,
    0xe49b69c19ef14ad2, 0xefbe4786384f25e3, 0x0fc19dc68b8cd5b5, 0x240ca1cc77ac9c65,
    0x2de92c6f592b0275, 0x4a7484aa6ea6e483, 0x5cb0a9dcbd41fbd4, 0x76f988da831153b5,
    0x983e5152ee66dfab, 0xa831c66d2db43210, 0xb00327c898fb213f, 0xbf597fc7beef0ee4,
    0xc6e00bf33da88fc2, 0xd5a79147930aa725, 0x06ca6351e003826f, 0x142929670a0e6e70,
    0x27b70a8546d22ffc, 0x2e1b21385c26c926, 0x4d2c6dfc5ac42aed, 0x53380d139d95b3df,
    0x650a73548baf63de, 0x766a0abb3c77b2a8, 0x81c2c92e47edaee6, 0x92722c851482353b,
    0xa2bfe8a14cf10364, 0xa81a664bbc423001, 0xc24b8b70d0f89791, 0xc76c51a30654be30,
    0xd192e819d6ef5218, 0xd69906245565a910, 0xf40e35855771202a, 0x106aa07032bbd1b8,
    0x19a4c116b8d2d0c8, 0x1e376c085141ab53, 0x2748774cdf8eeb99, 0x34b0bcb5e19b48a8,
    0x391c0cb3c5c95a63, 0x4ed8aa4ae3418acb, 0x5b9cca4f7763e373, 0x682e6ff3d6b2b8a3,
    0x748f82ee5defb2fc, 0x78a5636f43172f60, 0x84c87814a1f0ab72, 0x8cc702081a6439ec,
    0x90befffa23631e28, 0xa4506cebde82bde9, 0xbef9a3f7b2c67915, 0xc67178f2e372532b,
    0xca273eceea26619c, 0xd186b8c721c0c207, 0xeada7dd6cde0eb1e, 0xf57d4f7fee6ed178,
    0x06f067aa72176fba, 0x0a637dc5a2c898a6, 0x113f9804bef90dae, 0x1b710b35131c471b,
    0x28db77f523047d84, 0x32caab7b40c72493, 0x3c9ebe0a15c9bebc, 0x431d67c49c100d4c,
    0x4cc5d4becb3e42b6, 0x597f299cfc657e2a, 0x5fcb6fab3ad6faec, 0x6c44198c4a475817]

/-- Leading fractional bits of the square roots of the first eight primes. -/
def initial : State :=
  ⟨0x6a09e667f3bcc908, 0xbb67ae8584caa73b, 0x3c6ef372fe94f82b, 0xa54ff53a5f1d36f1,
    0x510e527fade682d1, 0x9b05688c2b3e6c1f, 0x1f83d9abfb41bd6b, 0x5be0cd19137e2179⟩

/-- The words of a block and those that follow from the last sixteen, `n` words in all. -/
def schedule : (n : Nat) → (window : List UInt64) → List UInt64
  | 0, _ => []
  | _, [] => []
  | n + 1, w :: window =>
    let x := (w :: window).getD 1 0
    let y := (w :: window).getD 14 0
    let spreadX := rotateRight x 1 ^^^ rotateRight x 8 ^^^ (x >>> 7)
    let spreadY := rotateRight y 19 ^^^ rotateRight y 61 ^^^ (y >>> 6)
    w :: schedule n (window ++ [w + spreadX + (w :: window).getD 9 0 + spreadY])

def round (s : State) (w k : UInt64) : State :=
  let choice := (s.e &&& s.f) ^^^ (~~~s.e &&& s.g)
  let majority := (s.a &&& s.b) ^^^ (s.a &&& s.c) ^^^ (s.b &&& s.c)
  let spreadE := rotateRight s.e 14 ^^^ rotateRight s.e 18 ^^^ rotateRight s.e 41
  let spreadA := rotateRight s.a 28 ^^^ rotateRight s.a 34 ^^^ rotateRight s.a 39
  let t := s.h + spreadE + choice + k + w
  ⟨t + spreadA + majority, s.a, s.b, s.c, s.d + t, s.e, s.f, s.g⟩

/-- The first `count` pieces of `size` elements. -/
def pieces {α : Type} (size : Nat) : (count : Nat) → List α → List (List α)
  | 0, _ => []
  | count + 1, l => l.take size :: pieces size count (l.drop size)

def blockWords (block : Bytes) : List UInt64 :=
  (pieces 8 16 block).map fun b => UInt64.ofNat (Bytes.toNat b)

def absorb (s : State) (block : Bytes) : State :=
  let words := schedule 80 (blockWords block)
  s.add ((words.zip roundConstants).foldl (fun t (w, k) => round t w k) s)

/-- The message, a one bit, zeros, and the message's length in bits, in whole blocks. -/
def pad (message : Bytes) : Bytes :=
  let zeros := (239 - message.length % 128) % 128
  message ++ 0x80 :: List.replicate zeros 0 ++ Bytes.ofNat 16 (8 * message.length)

def run (start : State) (message : Bytes) : State :=
  let padded := pad message
  (pieces 128 (padded.length / 128) padded).foldl absorb start

def digest (message : Bytes) : Bytes :=
  (run initial message).bytes

def variantName : Bytes :=
  [0x53, 0x48, 0x41, 0x2D, 0x35, 0x31, 0x32, 0x2F, 0x32, 0x35, 0x36]

def initial256 : State :=
  run (initial.mask 0xa5a5a5a5a5a5a5a5) variantName

def digest256 (message : Bytes) : Bytes :=
  (run initial256 message).bytes.take 32

@[simp] theorem length_digest (message : Bytes) : (digest message).length = 64 := by
  simp [digest]

@[simp] theorem length_digest256 (message : Bytes) : (digest256 message).length = 32 := by
  simp [digest256]

end Grove.Sha512
