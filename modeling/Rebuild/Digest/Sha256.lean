import Rebuild.Text.Utf8

/-!
# SHA-256

The hash function of FIPS 180-4: a message is padded to whole blocks of 64 bytes, and each block is
mixed into eight 32-bit words. All arithmetic is modulo 2^32.

* `Sha256.digest`: the digest of a whole message.
* `Sha256.Hasher`: the same digest taken piece by piece; it keeps the words after the whole blocks
  seen so far and the bytes of the block that is still open.
-/
namespace Rebuild.Sha256

/-- The eight words of the running digest. -/
structure Words where
  a : UInt32
  b : UInt32
  c : UInt32
  d : UInt32
  e : UInt32
  f : UInt32
  g : UInt32
  h : UInt32
  deriving DecidableEq, Repr

/-- The first 32 bits of the fractional parts of the square roots of the first eight primes. -/
def initial : Words :=
  ⟨0x6a09e667, 0xbb67ae85, 0x3c6ef372, 0xa54ff53a, 0x510e527f, 0x9b05688c, 0x1f83d9ab, 0x5be0cd19⟩

/-- The first 32 bits of the fractional parts of the cube roots of the first 64 primes. -/
def constants : List UInt32 :=
  [0x428a2f98, 0x71374491, 0xb5c0fbcf, 0xe9b5dba5, 0x3956c25b, 0x59f111f1, 0x923f82a4, 0xab1c5ed5,
   0xd807aa98, 0x12835b01, 0x243185be, 0x550c7dc3, 0x72be5d74, 0x80deb1fe, 0x9bdc06a7, 0xc19bf174,
   0xe49b69c1, 0xefbe4786, 0x0fc19dc6, 0x240ca1cc, 0x2de92c6f, 0x4a7484aa, 0x5cb0a9dc, 0x76f988da,
   0x983e5152, 0xa831c66d, 0xb00327c8, 0xbf597fc7, 0xc6e00bf3, 0xd5a79147, 0x06ca6351, 0x14292967,
   0x27b70a85, 0x2e1b2138, 0x4d2c6dfc, 0x53380d13, 0x650a7354, 0x766a0abb, 0x81c2c92e, 0x92722c85,
   0xa2bfe8a1, 0xa81a664b, 0xc24b8b70, 0xc76c51a3, 0xd192e819, 0xd6990624, 0xf40e3585, 0x106aa070,
   0x19a4c116, 0x1e376c08, 0x2748774c, 0x34b0bcb5, 0x391c0cb3, 0x4ed8aa4a, 0x5b9cca4f, 0x682e6ff3,
   0x748f82ee, 0x78a5636f, 0x84c87814, 0x8cc70208, 0x90befffa, 0xa4506ceb, 0xbef9a3f7, 0xc67178f2]

/-- Rotation to the right. -/
def rotate (x n : UInt32) : UInt32 := (x >>> n) ||| (x <<< (32 - n))

/-- One round of the compression. -/
def round (k w : UInt32) (s : Words) : Words :=
  let sum1 := rotate s.e 6 ^^^ rotate s.e 11 ^^^ rotate s.e 25
  let choice := (s.e &&& s.f) ^^^ (~~~s.e &&& s.g)
  let t1 := s.h + sum1 + choice + k + w
  let sum0 := rotate s.a 2 ^^^ rotate s.a 13 ^^^ rotate s.a 22
  let majority := (s.a &&& s.b) ^^^ (s.a &&& s.c) ^^^ (s.b &&& s.c)
  ⟨t1 + (sum0 + majority), s.a, s.b, s.c, s.d + t1, s.e, s.f, s.g⟩

/-- The word that follows sixteen words of the message schedule. -/
def nextWord (window : List UInt32) : UInt32 :=
  let w1 := window.getD 1 0
  let w14 := window.getD 14 0
  let small0 := rotate w1 7 ^^^ rotate w1 18 ^^^ (w1 >>> 3)
  let small1 := rotate w14 17 ^^^ rotate w14 19 ^^^ (w14 >>> 10)
  small1 + window.getD 9 0 + small0 + window.getD 0 0

/-- One round for each constant, with a window of sixteen words that slides along the schedule. -/
def rounds : List UInt32 → List UInt32 → Words → Words
  | [], _, s => s
  | k :: ks, window, s =>
    rounds ks (window.drop 1 ++ [nextWord window]) (round k (window.headD 0) s)

/-- Four bytes as one word, the first byte highest. -/
def word (a b c d : UInt8) : UInt32 :=
  (a.toUInt32 <<< 24) ||| (b.toUInt32 <<< 16) ||| (c.toUInt32 <<< 8) ||| d.toUInt32

/-- The words of a block. -/
def blockWords : Bytes → List UInt32
  | a :: b :: c :: d :: rest => word a b c d :: blockWords rest
  | _ => []

/-- Mixes one block of 64 bytes into the words. -/
def compress (s : Words) (block : Bytes) : Words :=
  let t := rounds constants (blockWords block) s
  ⟨s.a + t.a, s.b + t.b, s.c + t.c, s.d + t.d, s.e + t.e, s.f + t.f, s.g + t.g, s.h + t.h⟩

/-- Mixes in every whole block; the second part is the bytes of the block still open. -/
def absorb (s : Words) (bytes : Bytes) : Words × Bytes :=
  if _h : (bytes.take 64).length = 64 then absorb (compress s (bytes.take 64)) (bytes.drop 64)
  else (s, bytes)
  termination_by bytes.length
  decreasing_by simp only [List.length_take, List.length_drop] at *; omega

/-- The eight bytes of a number modulo 2^64, highest first. -/
def lengthBytes (n : Nat) : Bytes :=
  [56, 48, 40, 32, 24, 16, 8, 0].map fun shift => UInt8.ofNat (n / Nat.pow 2 shift)

/-- What follows a message of `n` bytes: a one bit, zeros, and the number of bits. -/
def padding (n : Nat) : Bytes :=
  0x80 :: (List.replicate ((119 - n % 64) % 64) 0 ++ lengthBytes (8 * n))

/-- The bytes of a word, highest first. -/
def wordBytes (w : UInt32) : Bytes :=
  [(w >>> 24).toUInt8, (w >>> 16).toUInt8, (w >>> 8).toUInt8, w.toUInt8]

def Words.bytes (s : Words) : Bytes := [s.a, s.b, s.c, s.d, s.e, s.f, s.g, s.h].flatMap wordBytes

/-- The digest of a message: 32 bytes. -/
def digest (message : Bytes) : Bytes :=
  (absorb initial (message ++ padding message.length)).1.bytes

/-- A digest under way. -/
structure Hasher where
  words : Words := initial
  /-- The bytes of the block that is still open. -/
  pending : Bytes := []
  /-- How many bytes have been seen. -/
  length : Nat := 0

/-- Takes in the next piece of the message. -/
def Hasher.update (h : Hasher) (piece : Bytes) : Hasher :=
  let (words, pending) := absorb h.words (h.pending ++ piece)
  ⟨words, pending, h.length + piece.length⟩

/-- The digest of all pieces taken in. -/
def Hasher.finish (h : Hasher) : Bytes :=
  (absorb h.words (h.pending ++ padding h.length)).1.bytes

end Rebuild.Sha256
