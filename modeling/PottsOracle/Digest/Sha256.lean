/-!
# The SHA-256 digest

A message is a list of bytes.  It is padded to whole blocks of sixteen words; every block is
expanded to sixty-four words and mixed into a state of eight words.  The digest is the last state.
-/

namespace PottsOracle.Sha256

/-- A word turned to the right by `n` bits. -/
def rotate (n x : UInt32) : UInt32 := (x >>> n) ||| (x <<< (32 - n))

/-- The constants of the sixty-four rounds. -/
def roundConstants : List UInt32 := [
  0x428a2f98, 0x71374491, 0xb5c0fbcf, 0xe9b5dba5, 0x3956c25b, 0x59f111f1, 0x923f82a4, 0xab1c5ed5,
  0xd807aa98, 0x12835b01, 0x243185be, 0x550c7dc3, 0x72be5d74, 0x80deb1fe, 0x9bdc06a7, 0xc19bf174,
  0xe49b69c1, 0xefbe4786, 0x0fc19dc6, 0x240ca1cc, 0x2de92c6f, 0x4a7484aa, 0x5cb0a9dc, 0x76f988da,
  0x983e5152, 0xa831c66d, 0xb00327c8, 0xbf597fc7, 0xc6e00bf3, 0xd5a79147, 0x06ca6351, 0x14292967,
  0x27b70a85, 0x2e1b2138, 0x4d2c6dfc, 0x53380d13, 0x650a7354, 0x766a0abb, 0x81c2c92e, 0x92722c85,
  0xa2bfe8a1, 0xa81a664b, 0xc24b8b70, 0xc76c51a3, 0xd192e819, 0xd6990624, 0xf40e3585, 0x106aa070,
  0x19a4c116, 0x1e376c08, 0x2748774c, 0x34b0bcb5, 0x391c0cb3, 0x4ed8aa4a, 0x5b9cca4f, 0x682e6ff3,
  0x748f82ee, 0x78a5636f, 0x84c87814, 0x8cc70208, 0x90befffa, 0xa4506ceb, 0xbef9a3f7, 0xc67178f2]

/-- Eight words. -/
structure State where
  a : UInt32
  b : UInt32
  c : UInt32
  d : UInt32
  e : UInt32
  f : UInt32
  g : UInt32
  h : UInt32
  deriving DecidableEq, Repr

/-- The state before the first block. -/
def State.initial : State :=
  ⟨0x6a09e667, 0xbb67ae85, 0x3c6ef372, 0xa54ff53a, 0x510e527f, 0x9b05688c, 0x1f83d9ab, 0x5be0cd19⟩

/-- The words of a state. -/
def State.words (s : State) : List UInt32 := [s.a, s.b, s.c, s.d, s.e, s.f, s.g, s.h]

/-- The sum of two states, word by word. -/
def State.add (s t : State) : State :=
  ⟨s.a + t.a, s.b + t.b, s.c + t.c, s.d + t.d, s.e + t.e, s.f + t.f, s.g + t.g, s.h + t.h⟩

/-- One round with its constant and its word. -/
def State.round (s : State) (constant word : UInt32) : State :=
  let big₁ := rotate 6 s.e ^^^ rotate 11 s.e ^^^ rotate 25 s.e
  let choice := (s.e &&& s.f) ^^^ (~~~s.e &&& s.g)
  let first := s.h + big₁ + choice + constant + word
  let big₀ := rotate 2 s.a ^^^ rotate 13 s.a ^^^ rotate 22 s.a
  let majority := (s.a &&& s.b) ^^^ (s.a &&& s.c) ^^^ (s.b &&& s.c)
  ⟨first + big₀ + majority, s.a, s.b, s.c, s.d + first, s.e, s.f, s.g⟩

/-- The word that follows the last sixteen words, the oldest one first. -/
def nextWord (window : List UInt32) : UInt32 :=
  let word (i : Nat) : UInt32 := window.getD i 0
  let small₀ := rotate 7 (word 1) ^^^ rotate 18 (word 1) ^^^ (word 1 >>> 3)
  let small₁ := rotate 17 (word 14) ^^^ rotate 19 (word 14) ^^^ (word 14 >>> 10)
  word 0 + small₀ + word 9 + small₁

/-- The first `count` words of the expansion of a block. -/
def expand : Nat → List UInt32 → List UInt32
  | 0, _ => []
  | count + 1, window =>
    window.headD 0 :: expand count (window.drop 1 ++ [nextWord window])

/-- Mixes a block of sixteen words into a state. -/
def State.absorb (s : State) (block : List UInt32) : State :=
  let mixed := (List.zip roundConstants (expand 64 block)).foldl
    (fun t (constant, word) => t.round constant word) s
  s.add mixed

/-- The bytes of a number, `count` of them, the most significant one first. -/
def bytesOf : Nat → Nat → List Nat
  | 0, _ => []
  | count + 1, n => bytesOf count (n / 256) ++ [n % 256]

/-- A message with a one bit, zeros and its length in bits, up to whole blocks. -/
def padded (message : List Nat) : List Nat :=
  let zeros := (119 - message.length % 64) % 64
  message ++ 128 :: List.replicate zeros 0 ++ bytesOf 8 (8 * message.length)

/-- The words of a list of bytes; bytes that fill no word are left out. -/
def wordsOf : List Nat → List UInt32
  | a :: b :: c :: d :: rest =>
    UInt32.ofNat (((a * 256 + b) * 256 + c) * 256 + d) :: wordsOf rest
  | _ => []

/-- The first `count` blocks of a list of words. -/
def blocks : Nat → List UInt32 → List (List UInt32)
  | 0, _ => []
  | count + 1, words => words.take 16 :: blocks count (words.drop 16)

/-- The thirty-two bytes of the digest of a message. -/
def digest (message : List Nat) : List Nat :=
  let words := wordsOf (padded message)
  let last := (blocks (words.length / 16) words).foldl State.absorb State.initial
  last.words.flatMap fun w => bytesOf 4 w.toNat

end PottsOracle.Sha256
