import Rebuild.Fingerprint.Basic
import Rebuild.Fingerprint.Payload

/-!
# Writing fingerprints

Every fingerprint is written as a frame of its tag and its payload; the parts of a combined one are
frames inside its payload. A payload can be larger than its frame has room for, so its length is
reckoned before a byte of it is written.
-/
namespace Rebuild.Fingerprint

mutual

/-- The contents of the fingerprint's frame. -/
def payload : Fingerprint → Except ProtocolError Bytes
  | empty => .ok []
  | parameters name digest => .ok (Payload.text name ++ Payload.text digest.text)
  | sourceSet files exclusions =>
    .ok (Payload.files files ++ Payload.option (Payload.list Payload.text) exclusions)
  | combined parts => Payload.list Payload.byteString <$> frames parts
  | custom _ payload => payload

/-- The frames of several fingerprints. -/
def frames : List Fingerprint → Except ProtocolError (List Bytes)
  | [] => .ok []
  | fp :: rest => do
    let payload ← fp.payload
    let frame ← Frame.encode ⟨fp.tag, payload⟩
    return frame :: (← frames rest)

end

mutual

/-- How many bytes the contents of the fingerprint's frame have. -/
def payloadLength : Fingerprint → Except ProtocolError Nat
  | empty => .ok 0
  | parameters name digest => .ok (16 + name.utf8ByteSize + digest.text.utf8ByteSize)
  | sourceSet files exclusions =>
    .ok (Payload.files files ++ Payload.option (Payload.list Payload.text) exclusions).length
  | combined parts => (8 + ·) <$> framesLength parts
  | custom _ payload => List.length <$> payload

/-- How many bytes several frames have, with the length in front of each. -/
def framesLength : List Fingerprint → Except ProtocolError Nat
  | [] => .ok 0
  | fp :: rest => do
    let frame ← Frame.writtenLength fp.tag (← fp.payloadLength)
    return 8 + frame + (← framesLength rest)

end

/-- Writes a fingerprint as a frame. -/
def encode (fp : Fingerprint) : Except ProtocolError Bytes := do
  discard (Frame.writtenLength fp.tag (← fp.payloadLength))
  let payload ← fp.payload
  Frame.encode ⟨fp.tag, payload⟩

end Rebuild.Fingerprint
