import Rebuild.Fingerprint.Error

/-!
# Frames

A fingerprint is written as a frame that names its kind:

    "KFP" | version: 1 byte | tag length: 2 bytes | tag | payload length: 4 bytes | payload

Numbers are little endian. A frame read back may hold at most 64 MiB of payload.

* `Frame.encode`: the bytes of a frame, if its lengths fit.
* `Frame.read`: the frame that the bytes are, with nothing after it.
-/
namespace Rebuild

/-- The `width` bytes of a number, lowest first. -/
def littleEndian : (width : Nat) → Nat → Bytes
  | 0, _ => []
  | width + 1, n => UInt8.ofNat (n % 256) :: littleEndian width (n / 256)

/-- The number whose bytes are these, lowest first. -/
def ofLittleEndian : Bytes → Nat
  | [] => 0
  | b :: rest => b.toNat + 256 * ofLittleEndian rest

theorem length_littleEndian (width n : Nat) : (littleEndian width n).length = width := by
  induction width generalizing n with
  | zero => rfl
  | succ width ih => simp [littleEndian, ih]

theorem ofLittleEndian_littleEndian (width n : Nat) (h : n < Nat.pow 256 width) :
    ofLittleEndian (littleEndian width n) = n := by
  induction width generalizing n with
  | zero => simp at h; simp [littleEndian, ofLittleEndian, h]
  | succ width ih =>
    have hd : n / 256 < Nat.pow 256 width := by
      rw [Nat.div_lt_iff_lt_mul (by decide)]
      simpa [Nat.pow_succ] using h
    simp only [littleEndian, ofLittleEndian, ih _ hd, UInt8.toNat_ofNat']
    omega

/-- A kind's tag and its payload. -/
structure Frame where
  tag : String
  payload : Bytes
  deriving DecidableEq, Repr

namespace Frame

/-- `KFP` -/
def magic : Bytes := [0x4B, 0x46, 0x50]

def version : Nat := 1

/-- The largest payload that is read. -/
def payloadLimit : Nat := 64 * 1024 * 1024

/-- The bytes of a frame whose lengths fit their fields. -/
def bytes (f : Frame) : Bytes :=
  let tag := Bytes.ofText f.tag
  magic ++ UInt8.ofNat version :: (littleEndian 2 tag.length ++ (tag ++
    (littleEndian 4 f.payload.length ++ f.payload)))

/-- Writes a frame. -/
def encode (f : Frame) : Except ProtocolError Bytes :=
  if Nat.pow 2 16 ≤ (Bytes.ofText f.tag).length then .error .invalidTag
  else if Nat.pow 2 32 ≤ f.payload.length then .error (.payloadTooLarge f.tag f.payload.length)
  else .ok f.bytes

/-- How many bytes a frame has that is written. -/
def writtenLength (tag : String) (payload : Nat) : Except ProtocolError Nat :=
  if Nat.pow 2 16 ≤ tag.utf8ByteSize then .error .invalidTag
  else if Nat.pow 2 32 ≤ payload then .error (.payloadTooLarge tag payload)
  else .ok (10 + tag.utf8ByteSize + payload)

/-- The first `n` bytes, and the rest. -/
def take (n : Nat) (b : Bytes) : Except ProtocolError (Bytes × Bytes) :=
  if (b.take n).length = n then .ok (b.take n, b.drop n) else .error .truncated

/-- Reads bytes that are exactly one frame. -/
def read (b : Bytes) : Except ProtocolError Frame := do
  let (start, b) ← take magic.length b
  if start ≠ magic then throw .badMagic
  let (v, b) ← take 1 b
  if ofLittleEndian v ≠ version then throw (.unsupportedVersion (ofLittleEndian v))
  let (tagLength, b) ← take 2 b
  let (tagBytes, b) ← take (ofLittleEndian tagLength) b
  let some tag := tagBytes.text? | throw .invalidTag
  let (payloadLength, b) ← take 4 b
  let length := ofLittleEndian payloadLength
  if payloadLimit < length then throw (.payloadTooLarge tag length)
  let (payload, b) ← take length b
  if b ≠ [] then throw (.trailingBytes b.length)
  return ⟨tag, payload⟩

end Frame

end Rebuild
