import Mathlib.Data.Vector.Basic

/-!
# SHA-256

An executable transcription of the Secure Hash Standard's SHA-256 on byte lists.  Words are numbers
below `2 ^ 32`, sums are reduced explicitly, and the message schedule is a window of sixteen words
that moves with the rounds; in this form the kernel evaluates a block in a tenth of a second.

The only fact that later proofs use is that a digest has 32 bytes; collision freedom is never a
theorem here but an explicit hypothesis on the inputs in play (`CollisionFreeOn`).
-/

namespace Sha256

/-- A digest: exactly 32 bytes. -/
abbrev Digest := List.Vector UInt8 32

/-- The number of words. -/
def wordSize : Nat :=
  4294967296

/-- The round constants. -/
def roundConstants : List Nat := [
  0x428a2f98, 0x71374491, 0xb5c0fbcf, 0xe9b5dba5, 0x3956c25b, 0x59f111f1, 0x923f82a4, 0xab1c5ed5,
  0xd807aa98, 0x12835b01, 0x243185be, 0x550c7dc3, 0x72be5d74, 0x80deb1fe, 0x9bdc06a7, 0xc19bf174,
  0xe49b69c1, 0xefbe4786, 0x0fc19dc6, 0x240ca1cc, 0x2de92c6f, 0x4a7484aa, 0x5cb0a9dc, 0x76f988da,
  0x983e5152, 0xa831c66d, 0xb00327c8, 0xbf597fc7, 0xc6e00bf3, 0xd5a79147, 0x06ca6351, 0x14292967,
  0x27b70a85, 0x2e1b2138, 0x4d2c6dfc, 0x53380d13, 0x650a7354, 0x766a0abb, 0x81c2c92e, 0x92722c85,
  0xa2bfe8a1, 0xa81a664b, 0xc24b8b70, 0xc76c51a3, 0xd192e819, 0xd6990624, 0xf40e3585, 0x106aa070,
  0x19a4c116, 0x1e376c08, 0x2748774c, 0x34b0bcb5, 0x391c0cb3, 0x4ed8aa4a, 0x5b9cca4f, 0x682e6ff3,
  0x748f82ee, 0x78a5636f, 0x84c87814, 0x8cc70208, 0x90befffa, 0xa4506ceb, 0xbef9a3f7, 0xc67178f2]

def rotateRight (word amount : Nat) : Nat :=
  ((word >>> amount) ||| (word <<< (32 - amount))) % wordSize

def smallSigma0 (word : Nat) : Nat :=
  rotateRight word 7 ^^^ rotateRight word 18 ^^^ (word >>> 3)

def smallSigma1 (word : Nat) : Nat :=
  rotateRight word 17 ^^^ rotateRight word 19 ^^^ (word >>> 10)

def bigSigma0 (word : Nat) : Nat :=
  rotateRight word 2 ^^^ rotateRight word 13 ^^^ rotateRight word 22

def bigSigma1 (word : Nat) : Nat :=
  rotateRight word 6 ^^^ rotateRight word 11 ^^^ rotateRight word 25

/-- The complement of a word. -/
def complement (word : Nat) : Nat :=
  (wordSize - 1) ^^^ word

/-- The eight working variables. -/
structure Working where
  a : Nat
  b : Nat
  c : Nat
  d : Nat
  e : Nat
  f : Nat
  g : Nat
  h : Nat

def initialWorking : Working :=
  ⟨0x6a09e667, 0xbb67ae85, 0x3c6ef372, 0xa54ff53a, 0x510e527f, 0x9b05688c, 0x1f83d9ab, 0x5be0cd19⟩

/-- One round, with its constant and its schedule word. -/
def round (w : Working) (constant word : Nat) : Working :=
  match w with
  | ⟨a, b, c, d, e, f, g, h⟩ =>
    let t1 := h + bigSigma1 e + ((e &&& f) ^^^ (complement e &&& g)) + constant + word
    let t2 := bigSigma0 a + ((a &&& b) ^^^ (a &&& c) ^^^ (b &&& c))
    ⟨(t1 + t2) % wordSize, a, b, c, (d + t1) % wordSize, e, f, g⟩

/-- All rounds of a block.  Each one uses up the first word of the window and adds a new last
one. -/
def rounds : List Nat → Working → List Nat → Working
  | constant :: constants, w, w0 :: w1 :: w2 :: w3 :: w4 :: w5 :: w6 :: w7 :: w8 :: w9 :: w10 :: w11
      :: w12 :: w13 :: w14 :: w15 :: _ =>
      rounds constants (round w constant w0)
        [w1, w2, w3, w4, w5, w6, w7, w8, w9, w10, w11, w12, w13, w14, w15,
          (smallSigma1 w14 + w9 + smallSigma0 w1 + w0) % wordSize]
  | _, w, _ => w

/-- Absorb one block of sixteen words. -/
def compressBlock (w : Working) (block : List Nat) : Working :=
  let r := rounds roundConstants w block
  ⟨(w.a + r.a) % wordSize, (w.b + r.b) % wordSize, (w.c + r.c) % wordSize, (w.d + r.d) % wordSize,
    (w.e + r.e) % wordSize, (w.f + r.f) % wordSize, (w.g + r.g) % wordSize, (w.h + r.h) % wordSize⟩

def compressBlocks : Nat → Working → List Nat → Working
  | 0, w, _ => w
  | count + 1, w, words => compressBlocks count (compressBlock w (words.take 16)) (words.drop 16)

/-- Big-endian words of a byte list whose length is a multiple of four. -/
def toWords : List UInt8 → List Nat
  | a :: b :: c :: d :: rest =>
    (((a.toNat * 256 + b.toNat) * 256 + c.toNat) * 256 + d.toNat) :: toWords rest
  | _ => []

def bigEndian64 (n : Nat) : List UInt8 :=
  (List.range 8).map fun i => UInt8.ofNat (n / 256 ^ (7 - i))

def bigEndian32 (word : Nat) : List UInt8 :=
  [UInt8.ofNat (word >>> 24), UInt8.ofNat (word >>> 16), UInt8.ofNat (word >>> 8),
    UInt8.ofNat word]

/-- The padded message: a one bit, zeroes up to 56 modulo 64, and the bit length. -/
def pad (message : List UInt8) : List UInt8 :=
  message ++ 0x80 :: List.replicate ((119 - message.length % 64) % 64) 0
    ++ bigEndian64 (8 * message.length)

/-- The SHA-256 digest of a byte list. -/
def sha256 (message : List UInt8) : Digest :=
  let padded := pad message
  let w := compressBlocks (padded.length / 64) initialWorking (toWords padded)
  ⟨bigEndian32 w.a ++ bigEndian32 w.b ++ bigEndian32 w.c ++ bigEndian32 w.d ++ bigEndian32 w.e
    ++ bigEndian32 w.f ++ bigEndian32 w.g ++ bigEndian32 w.h, rfl⟩

-- The standard's one-block test vector, on the bytes of "abc".
example : (sha256 [0x61, 0x62, 0x63]).toList =
    [0xba, 0x78, 0x16, 0xbf, 0x8f, 0x01, 0xcf, 0xea, 0x41, 0x41, 0x40, 0xde, 0x5d, 0xae, 0x22, 0x23,
     0xb0, 0x03, 0x61, 0xa3, 0x96, 0x17, 0x7a, 0x9c, 0xb4, 0x10, 0xff, 0x61, 0xf2, 0x00, 0x15, 0xad]
    := by
  decide +kernel

/-- No two inputs satisfying `inPlay` have the same digest.  On all byte lists this is false by
counting, so it is only ever assumed of the inputs a statement is about. -/
def CollisionFreeOn (inPlay : List UInt8 → Prop) : Prop :=
  ∀ x y, inPlay x → inPlay y → sha256 x = sha256 y → x = y

end Sha256
