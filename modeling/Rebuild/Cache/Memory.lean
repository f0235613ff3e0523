import Rebuild.Cache.Basic
import Rebuild.Fingerprint.Encode

/-!
# Caches in memory

Entries by builder identity. Fingerprints are kept in their encoded form, and agree if they are
encoded alike.
-/
namespace Rebuild

/-- The outputs of a builder, and the encoded fingerprint under which they were stored. -/
structure MemoryEntry where
  fingerprint : Bytes
  files : SortedMap RelativePath Bytes
  deriving DecidableEq

/-- A cache in memory. -/
structure MemoryCache where
  entries : SortedMap BuilderId MemoryEntry := ∅
  deriving DecidableEq

namespace MemoryCache

/-- Whether the entry of a builder was stored under a fingerprint that is encoded alike. -/
def contains (c : MemoryCache) (id : BuilderId) (fp : Fingerprint) : Except ProtocolError Bool := do
  let encoded ← fp.encode
  return (c.entries.get? id).any (·.fingerprint == encoded)

/-- Reads files in order, until one cannot be read. -/
def readFiles (read : RelativePath → Except FsError Bytes) :
    List RelativePath → Except FsError (List (RelativePath × Bytes))
  | [] => .ok []
  | p :: rest => do
    let content ← read p
    return (p, content) :: (← readFiles read rest)

/-- Replaces the entry of a builder. -/
def store (c : MemoryCache) (id : BuilderId) (fp : Fingerprint) (outputs : Outputs)
    (read : RelativePath → Except FsError Bytes) : Except CacheError MemoryCache := do
  let encoded ← fp.encode.mapError (.protocol id)
  let files ← (readFiles read outputs.toList).mapError (.artifact id)
  return ⟨c.entries.insert id ⟨encoded, .ofList files⟩⟩

/-- The outputs of a builder. -/
def files (c : MemoryCache) (id : BuilderId) : Except CacheError (SortedMap RelativePath Bytes) :=
  match c.entries.get? id with
  | some entry => .ok entry.files
  | none => .error (.missing id)

/-- Removes the entry of a builder; also whether there was one. -/
def remove (c : MemoryCache) (id : BuilderId) : Bool × MemoryCache :=
  (c.entries.contains id, ⟨c.entries.erase id⟩)

variable {σ : Type}

/-- The cache as one of a world that holds it. -/
def cache (part : Part σ MemoryCache) : Cache σ where
  contains id fp := do
    match (← Action.ask part.get).contains id fp with
    | .ok found => return found
    | .error e =>
      Action.tell (.unwritableFingerprint id e)
      return false
  store id fp outputs dir := do
    let s := (← get).world
    match (part.get s).store id fp outputs (dir.read · s) with
    | .error e => return .error e
    | .ok c =>
      Action.tell (.storedInMemory id outputs.size)
      Action.change fun s => (.ok (), part.set c s)
  restore id dir := do
    match (← Action.ask part.get).files id with
    | .error e => return .error e
    | .ok files =>
      let written ← Action.change (dir.writeAll files.entries)
      return match written with
        | .ok () => .ok (.ofList files.keys)
        | .error e => .error (.artifact id e)

/-- A cache whose artifacts are gone when they are asked for. -/
def vanishing (part : Part σ MemoryCache) : Cache σ :=
  { cache part with restore := fun id _ => return .error (.corrupt id .vanished) }

end MemoryCache

end Rebuild
