/-!
# SHA-256

The message is padded to whole blocks of sixteen big-endian 32-bit words: one bit, then zeros,
then the length of the message in bits. Each block is mixed into a state of eight words in
sixty-four rounds. The rounds take their words from a window that slides over the message
schedule: it starts as the block, and with each round it drops its first word and gains the next.
-/

namespace Apfs

namespace Sha256

structure State where
  a : UInt32
  b : UInt32
  c : UInt32
  d : UInt32
  e : UInt32
  f : UInt32
  g : UInt32
  h : UInt32
deriving DecidableEq, Repr

namespace State

/-- The first bits behind the point of the square roots of the first eight primes. -/
def initial : State :=
  ⟨0x6a09e667, 0xbb67ae85, 0x3c6ef372, 0xa54ff53a, 0x510e527f, 0x9b05688c, 0x1f83d9ab, 0x5be0cd19⟩

def add (s t : State) : State :=
  ⟨s.a + t.a, s.b + t.b, s.c + t.c, s.d + t.d, s.e + t.e, s.f + t.f, s.g + t.g, s.h + t.h⟩

def words (s : State) : List UInt32 := [s.a, s.b, s.c, s.d, s.e, s.f, s.g, s.h]

end State

/-- The first bits behind the point of the cube roots of the first sixty-four primes. -/
def roundConstants : List UInt32 := [
  0x428a2f98, 0x71374491, 0xb5c0fbcf, 0xe9b5dba5, 0x3956c25b, 0x59f111f1, 0x923f82a4, 0xab1c5ed5,
  0xd807aa98, 0x12835b01, 0x243185be, 0x550c7dc3, 0x72be5d74, 0x80deb1fe, 0x9bdc06a7, 0xc19bf174,
  0xe49b69c1, 0xefbe4786, 0x0fc19dc6, 0x240ca1cc, 0x2de92c6f, 0x4a7484aa, 0x5cb0a9dc, 0x76f988da,
  0x983e5152, 0xa831c66d, 0xb00327c8, 0xbf597fc7, 0xc6e00bf3, 0xd5a79147, 0x06ca6351, 0x14292967,
  0x27b70a85, 0x2e1b2138, 0x4d2c6dfc, 0x53380d13, 0x650a7354, 0x766a0abb, 0x81c2c92e, 0x92722c85,
  0xa2bfe8a1, 0xa81a664b, 0xc24b8b70, 0xc76c51a3, 0xd192e819, 0xd6990624, 0xf40e3585, 0x106aa070,
  0x19a4c116, 0x1e376c08, 0x2748774c, 0x34b0bcb5, 0x391c0cb3, 0x4ed8aa4a, 0x5b9cca4f, 0x682e6ff3,
  0x748f82ee, 0x78a5636f, 0x84c87814, 0x8cc70208, 0x90befffa, 0xa4506ceb, 0xbef9a3f7, 0xc67178f2]

def rotateRight (x n : UInt32) : UInt32 := x >>> n ||| x <<< (32 - n)

def round (s : State) (constant word : UInt32) : State :=
  let sum := rotateRight s.e 6 ^^^ rotateRight s.e 11 ^^^ rotateRight s.e 25
  let choice := (s.e &&& s.f) ^^^ (~~~s.e &&& s.g)
  let first := s.h + sum + choice + constant + word
  let sum := rotateRight s.a 2 ^^^ rotateRight s.a 13 ^^^ rotateRight s.a 22
  let majority := (s.a &&& s.b) ^^^ (s.a &&& s.c) ^^^ (s.b &&& s.c)
  ⟨first + (sum + majority), s.a, s.b, s.c, s.d + first, s.e, s.f, s.g⟩

/-- Sixteen neighbouring words of the message schedule. -/
abbrev Window := Vector UInt32 16

namespace Window

/-- The word of the schedule that follows the window. -/
def next (w : Window) : UInt32 :=
  let old := rotateRight w[1] 7 ^^^ rotateRight w[1] 18 ^^^ w[1] >>> 3
  let new := rotateRight w[14] 17 ^^^ rotateRight w[14] 19 ^^^ w[14] >>> 10
  w[0] + old + w[9] + new

def slide (w : Window) : Window := (w.tail.push w.next).cast rfl

end Window

/-- Mixes one block into the state. -/
def compress (s : State) (block : Window) : State :=
  let step : State × Window → UInt32 → State × Window := fun (s, w) constant =>
    (round s constant w[0], w.slide)
  s.add (roundConstants.foldl step (s, block)).1

/-- Mixes the whole blocks at the front of a list of words into the state. -/
def absorb (s : State) (words : List UInt32) : State :=
  if h : 16 ≤ words.length then
    absorb (compress s (.ofFn fun i => words[i])) (words.drop 16)
  else s
termination_by words.length

/-- The words of a byte string, the most significant byte first. -/
def wordsOfBytes : List UInt8 → List UInt32
  | a :: b :: c :: d :: bs =>
    (a.toUInt32 <<< 24 ||| b.toUInt32 <<< 16 ||| c.toUInt32 <<< 8 ||| d.toUInt32)
      :: wordsOfBytes bs
  | _ => []

def bytesOfWord (w : UInt32) : List UInt8 :=
  [(w >>> 24).toUInt8, (w >>> 16).toUInt8, (w >>> 8).toUInt8, w.toUInt8]

/-- The message with its padding, of which the length is a multiple of 64. -/
def pad (message : List UInt8) : List UInt8 :=
  let zeros := (119 - message.length % 64) % 64
  let bits : UInt64 := .ofNat (8 * message.length)
  message ++ [(0x80 : UInt8)] ++ List.replicate zeros (0 : UInt8)
    ++ bytesOfWord (bits >>> 32).toUInt32 ++ bytesOfWord bits.toUInt32

end Sha256

/-- The SHA-256 digest of a byte string. -/
def sha256 (message : List UInt8) : List UInt8 :=
  (Sha256.absorb .initial (Sha256.wordsOfBytes (Sha256.pad message))).words.flatMap
    Sha256.bytesOfWord

end Apfs
