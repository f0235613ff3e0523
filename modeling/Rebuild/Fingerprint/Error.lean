import Rebuild.Path.Parse
import Rebuild.Text.Utf8

/-!
# Faults of the fingerprint protocol

What can be wrong with a frame or a payload, and the one text of each fault.
-/
namespace Rebuild

/-- Why a payload is not the encoding of the value it should hold. -/
inductive PayloadFault where
  /-- A number or a mark lies beyond the end. -/
  | endOfInput
  /-- The contents of a string lie beyond the end. -/
  | shortContents
  | optionMark (mark : Nat)
  | notText (flaw : Utf8.Flaw)
  | path (error : PathError)
  /-- Bytes follow the value. -/
  | leftOver
  deriving DecidableEq, Repr

def PayloadFault.message : PayloadFault → String
  | .endOfInput => "io error: unexpected end of file"
  | .shortContents => "io error: "
  | .optionMark mark => s!"tag for enum is not valid, found {mark}"
  | .notText flaw => s!"string is not valid utf8: {flaw.message}"
  | .path error => error.message
  | .leftOver => "Slice had bytes remaining after deserialization"

/-- Why a fingerprint cannot be encoded or decoded. -/
inductive ProtocolError where
  | truncated
  | badMagic
  | unsupportedVersion (version : Nat)
  | invalidTag
  | unknownKind (tag : String)
  | payloadTooLarge (kind : String) (length : Nat)
  | trailingBytes (count : Nat)
  | codec (fault : PayloadFault)
  | tooDeep (limit : Nat)
  /-- A kind with a payload format of its own refuses its input. -/
  | invalidPayload (kind message : String)
  deriving DecidableEq, Repr

def ProtocolError.message : ProtocolError → String
  | .truncated => "fingerprint data is truncated"
  | .badMagic => "fingerprint data does not start with the expected magic bytes"
  | .unsupportedVersion version => s!"unsupported fingerprint protocol version {version}"
  | .invalidTag => "fingerprint kind tag is not valid utf-8"
  | .unknownKind tag => s!"no decoder registered for fingerprint kind {quoted tag}"
  | .payloadTooLarge kind length =>
    s!"fingerprint payload for {quoted kind} is too large ({length} bytes)"
  | .trailingBytes count => s!"{count} trailing bytes after fingerprint frame"
  | .codec fault => s!"fingerprint payload codec error: {fault.message}"
  | .tooDeep limit => s!"fingerprint frames are nested more than {limit} levels deep"
  | .invalidPayload kind message => s!"invalid {quoted kind} payload: {message}"

end Rebuild
