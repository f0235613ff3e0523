import Rebuild.Digest.Sha256
import Rebuild.Text.Hex

/-!
# Content hashes

A content hash is the SHA-256 digest of some bytes as 64 lowercase hexadecimal digits. It can be
taken of bytes at hand or of a reader that yields them piece by piece.
-/
namespace Rebuild

/-- The digest of some contents, as text. Digests read from a file may be any text. -/
structure ContentHash where
  text : String
  deriving DecidableEq, Repr

namespace ContentHash

instance : ToString ContentHash := ⟨text⟩

/-- The hash of bytes at hand. -/
def ofBytes (b : Bytes) : ContentHash := ⟨(Sha256.digest b).hex⟩

/-- What the calls on a reader give, in order: a piece, or a failure. A reader whose answers run
out, or that gives an empty piece, is at its end. -/
abbrev Reads (ε : Type) := List (Except ε Bytes)

/-- How many bytes a single call on a reader can give. -/
def bufferSize : Nat := 8192

/-- A call on a reader puts its piece at the front of a buffer. What lies behind it stays. -/
def fill (buffer piece : Bytes) : Bytes := piece.take bufferSize ++ buffer.drop piece.length

/-- Feeds a reader to a digest until its end or its first failure. All pieces go through the same
buffer, of which the digest takes as many bytes as the last call gave. -/
def ofReadsFrom {ε : Type} (h : Sha256.Hasher) (buffer : Bytes) : Reads ε → Except ε ContentHash
  | [] => .ok ⟨h.finish.hex⟩
  | .ok [] :: _ => .ok ⟨h.finish.hex⟩
  | .ok piece :: rest =>
    let buffer := fill buffer piece
    ofReadsFrom (h.update (buffer.take piece.length)) buffer rest
  | .error e :: _ => .error e

/-- The hash of everything a reader yields, or its first failure. -/
def ofReads {ε : Type} (reads : Reads ε) : Except ε ContentHash :=
  ofReadsFrom {} (List.replicate bufferSize 0) reads

/-- The calls on a reader of `data`, of which `given` bytes have been read, that gives at most
`chunk` bytes a call and fails once `failAt` bytes have been given. `fuel` bounds the number of
calls. -/
def readsFrom {ε : Type} (chunk : Nat) (failAt : Option Nat) (failure : ε) :
    (fuel given : Nat) → Bytes → Reads ε
  | 0, _, _ => []
  | fuel + 1, given, data =>
    if failAt.any (· ≤ given) then [.error failure]
    else
      let piece := data.take (Nat.min chunk bufferSize)
      if piece = [] then []
      else .ok piece :: readsFrom chunk failAt failure fuel (given + piece.length)
        (data.drop piece.length)

/-- The calls on a reader of `data`. -/
def readsOf {ε : Type} (chunk : Nat) (failAt : Option Nat) (failure : ε) (data : Bytes) : Reads ε :=
  readsFrom chunk failAt failure (data.length + 1) 0 data

end ContentHash

/-- How many digits name an entry directory. -/
def shortHashLength : Nat := 20

/-- The first digits of the hash of a text: a name for it that is safe in a file system. -/
def shortHash (s : String) : String :=
  String.ofList ((ContentHash.ofBytes (Bytes.ofText s)).text.toList.take shortHashLength)

end Rebuild
