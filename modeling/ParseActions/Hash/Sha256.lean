/-!
# SHA-256

The digest of a message of bytes. The message is padded to blocks of 64 bytes; each block is
expanded to a schedule of 64 words, one for each round, and the rounds stir a state of eight words.

## Main definitions

* `Sha256.padded`: a message with its padding
* `Sha256.schedule`: the words of a block
* `Sha256.compress`: the effect of a block on the state
* `Sha256.digest`: the 32 bytes of the digest
-/

namespace ParseActions.Sha256

/-- The first 32 bits of the fractional parts of the cube roots of the first 64 primes. -/
def roundConstants : List UInt32 :=
  [
    0x428a2f98, 0x71374491, 0xb5c0fbcf, 0xe9b5dba5, 0x3956c25b, 0x59f111f1, 0x923f82a4, 0xab1c5ed5,
    0xd807aa98, 0x12835b01, 0x243185be, 0x550c7dc3, 0x72be5d74, 0x80deb1fe, 0x9bdc06a7, 0xc19bf174,
    0xe49b69c1, 0xefbe4786, 0x0fc19dc6, 0x240ca1cc, 0x2de92c6f, 0x4a7484aa, 0x5cb0a9dc, 0x76f988da,
    0x983e5152, 0xa831c66d, 0xb00327c8, 0xbf597fc7, 0xc6e00bf3, 0xd5a79147, 0x06ca6351, 0x14292967,
    0x27b70a85, 0x2e1b2138, 0x4d2c6dfc, 0x53380d13, 0x650a7354, 0x766a0abb, 0x81c2c92e, 0x92722c85,
    0xa2bfe8a1, 0xa81a664b, 0xc24b8b70, 0xc76c51a3, 0xd192e819, 0xd6990624, 0xf40e3585, 0x106aa070,
    0x19a4c116, 0x1e376c08, 0x2748774c, 0x34b0bcb5, 0x391c0cb3, 0x4ed8aa4a, 0x5b9cca4f, 0x682e6ff3,
    0x748f82ee, 0x78a5636f, 0x84c87814, 0x8cc70208, 0x90befffa, 0xa4506ceb, 0xbef9a3f7, 0xc67178f2]

/-- The eight words that the rounds stir. -/
structure State where
  a : UInt32
  b : UInt32
  c : UInt32
  d : UInt32
  e : UInt32
  f : UInt32
  g : UInt32
  h : UInt32
  deriving DecidableEq

namespace State

/-- The first 32 bits of the fractional parts of the square roots of the first eight primes. -/
def initial : State :=
  ⟨0x6a09e667, 0xbb67ae85, 0x3c6ef372, 0xa54ff53a,
    0x510e527f, 0x9b05688c, 0x1f83d9ab, 0x5be0cd19⟩

/-- The words in order. -/
def words (s : State) : List UInt32 :=
  [s.a, s.b, s.c, s.d, s.e, s.f, s.g, s.h]

/-- Adds two states word by word. -/
def add (s t : State) : State :=
  ⟨s.a + t.a, s.b + t.b, s.c + t.c, s.d + t.d, s.e + t.e, s.f + t.f, s.g + t.g, s.h + t.h⟩

end State

/-- A word turned to the right. -/
def rotated (x n : UInt32) : UInt32 :=
  (x >>> n) ||| (x <<< (32 - n))

/-- One round, with its constant and its word of the schedule. -/
def round (s : State) (constant word : UInt32) : State :=
  let mixed := rotated s.e 6 ^^^ rotated s.e 11 ^^^ rotated s.e 25
  let chosen := (s.e &&& s.f) ^^^ (~~~s.e &&& s.g)
  let t := s.h + mixed + chosen + constant + word
  let spread := rotated s.a 2 ^^^ rotated s.a 13 ^^^ rotated s.a 22
  let majority := (s.a &&& s.b) ^^^ (s.a &&& s.c) ^^^ (s.b &&& s.c)
  ⟨t + (spread + majority), s.a, s.b, s.c, s.d + t, s.e, s.f, s.g⟩

/-- The word that follows the given ones in a schedule. -/
def nextWord (words : Array UInt32) : UInt32 :=
  let back (n : Nat) := words.getD (words.size - n) 0
  let x := back 15
  let y := back 2
  back 16 + (rotated x 7 ^^^ rotated x 18 ^^^ (x >>> 3)) + back 7
    + (rotated y 17 ^^^ rotated y 19 ^^^ (y >>> 10))

/-- The 64 words of a block of 16 words. -/
def schedule (block : Array UInt32) : Array UInt32 :=
  Nat.repeat (fun words => words.push (nextWord words)) 48 block

/-- The effect of a block on the state. -/
def compress (s : State) (block : Array UInt32) : State :=
  s.add ((roundConstants.zip (schedule block).toList).foldl (fun s (k, w) => round s k w) s)

/-- The `count` bytes of a number, the most significant one first. -/
def bytesOf (n : Nat) : (count : Nat) → List UInt8
  | 0 => []
  | count + 1 => (n >>> (8 * count)).toUInt8 :: bytesOf n count

/-- A message, a mark, zeros up to a whole number of blocks, and the length of the message in
bits. -/
def padded (message : List UInt8) : List UInt8 :=
  message ++ 0x80 :: List.replicate ((119 - message.length % 64) % 64) 0
    ++ bytesOf (8 * message.length) 8

/-- The words that bytes make, four bytes each. -/
def wordsOf (out : Array UInt32) : List UInt8 → Array UInt32
  | a :: b :: c :: d :: rest =>
    wordsOf (out.push ((a.toUInt32 <<< 24) ||| (b.toUInt32 <<< 16) ||| (c.toUInt32 <<< 8)
      ||| d.toUInt32)) rest
  | _ => out

/-- The digest of a message. -/
def digest (message : List UInt8) : List UInt8 :=
  let words := wordsOf #[] (padded message)
  let state := (List.range (words.size / 16)).foldl
    (fun s i => compress s (words.extract (16 * i) (16 * i + 16))) State.initial
  state.words.flatMap fun w => bytesOf w.toNat 4

end ParseActions.Sha256
