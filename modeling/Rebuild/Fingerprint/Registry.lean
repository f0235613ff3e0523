import Rebuild.Fingerprint.Basic
import Rebuild.Fingerprint.Payload

/-!
# Reading fingerprints

A registry is a list of decoders; the first that supports the tag of a frame reads its payload. A
decoder of a composite kind hands the frames inside its payload back to the registry, one level
deeper; frames more than 64 levels below the outermost are refused.

* `Registry.decode`: the fingerprint that the bytes encode.
* `Registry.standard`: the decoders of the built-in kinds.
-/
namespace Rebuild

/-- How deep frames may lie below the outermost one. -/
def nestingLimit : Nat := 64

/-- What a decoder knows of where it stands. -/
structure Nested where
  /-- The level of the frame that is being decoded. -/
  depth : Nat
  /-- The number of registered decoders. -/
  decoders : Nat
  /-- Decodes a frame inside the payload. -/
  decode : Bytes → Except ProtocolError Fingerprint

/-- Reads the payloads of some kinds. -/
structure Decoder where
  supports : String → Bool
  decode : Nested → Bytes → Except ProtocolError Fingerprint

namespace Decoder

/-- Reads the payloads under one tag, without looking at frames inside. -/
def leaf (tag : String) (read : Bytes → Except ProtocolError Fingerprint) : Decoder :=
  ⟨(· == tag), fun _ => read⟩

/-- A payload that holds a value the fingerprint is made of. -/
def ofReader {α : Type} (tag : String) (read : Payload.Reader α) (make : α → Fingerprint) :
    Decoder :=
  leaf tag fun b => (make <$> Payload.whole read b).mapError .codec

def sourceSet (tag : String) : Decoder :=
  ofReader tag
    (Payload.readPair Payload.readFiles (Payload.readOption (Payload.readList Payload.readText)))
    fun (files, exclusions) => .sourceSet files exclusions

def parameters (tag : String) : Decoder :=
  ofReader tag (Payload.readPair Payload.readText Payload.readHash)
    fun (name, digest) => .parameters name digest

def empty (tag : String) : Decoder := ofReader tag (fun b => .ok ((), b)) fun () => .empty

/-- The parts of a combined fingerprint are frames one level deeper. -/
def combined : Decoder where
  supports := (· == "combined")
  decode nested b := do
    let frames ← (Payload.whole (Payload.readList Payload.readByteString) b).mapError .codec
    return .combined (← frames.mapM nested.decode)

/-- Takes every tag with the given beginning and keeps the payload as it is, under a tag that says
where it was found. -/
def verbatim (beginning : String) : Decoder where
  supports tag := beginning.toList.isPrefixOf tag.toList
  decode nested b := .ok (.custom s!"{beginning}@{nested.depth}/{nested.decoders}" (.ok b))

/-- The payload is one frame, which becomes the only part of a combined fingerprint. -/
def wrapping (tag : String) : Decoder where
  supports := (· == tag)
  decode nested b := do return .combined [← nested.decode b]

/-- Refuses every payload under the tag. -/
def refusing (tag : String) : Decoder :=
  leaf tag fun b => .error (.invalidPayload tag s!"{b.length} bytes refused")

end Decoder

/-- Decoders in the order in which they are asked. -/
structure Registry where
  decoders : List Decoder := []

namespace Registry

/-- The decoders of the built-in kinds. -/
def standard : Registry :=
  ⟨[.sourceSet "source-set", .parameters "parameters", .empty "empty", .combined]⟩

/-- Adds a decoder, to be asked last. -/
def register (r : Registry) (d : Decoder) : Registry := ⟨r.decoders ++ [d]⟩

/-- The number of decoders. -/
def size (r : Registry) : Nat := r.decoders.length

def isEmpty (r : Registry) : Bool := r.decoders.isEmpty

/-- Decodes a frame at a level of nesting. -/
def decodeAt (r : Registry) (depth : Nat) (b : Bytes) : Except ProtocolError Fingerprint :=
  if _h : nestingLimit < depth then .error (.tooDeep nestingLimit)
  else do
    let frame ← Frame.read b
    match r.decoders.find? (·.supports frame.tag) with
    | none => .error (.unknownKind frame.tag)
    | some d => d.decode ⟨depth, r.size, fun b => r.decodeAt (depth + 1) b⟩ frame.payload
  termination_by nestingLimit + 1 - depth

/-- Decodes an outermost frame. -/
def decode (r : Registry) (b : Bytes) : Except ProtocolError Fingerprint := r.decodeAt 0 b

end Registry

end Rebuild
