import Rebuild.Cache.Basic
import Rebuild.Cache.Entry
import Rebuild.Digest.ContentHash
import Rebuild.Directory.Local
import Rebuild.Environment
import Rebuild.Fingerprint.Encode
import Rebuild.Fingerprint.Registry
import Rebuild.Lock.Basic

/-!
# Caches on the disk

A cache lies below a root that is locked as long as the cache is open. The entry of a builder is a
directory named by a hash of its identity:

* `entry.json`: the index, which says whose entry it is and which files it holds;
* `fingerprint.bin`: the encoded fingerprint;
* `files`: the directory with the outputs.

An entry is put together in a staging directory and then moved to its place, so that nobody sees
half of one, and a failed attempt leaves nothing behind.
-/
namespace Rebuild

/-- An open cache. The root is an absolute path. -/
structure DiskCache where
  root : OsPath
  registry : Registry
  lock : CacheLock

namespace DiskCache

/-- What lock files call the holder of a cache. -/
def holderName : String := "kiln"

/-- The directory of a builder's entry. -/
def entryDir (c : DiskCache) (id : BuilderId) : OsPath := c.root.child (shortHash id.text)

/-- The directory in an entry that holds the outputs. -/
def filesIn (entry : OsPath) : LocalDirectory := ⟨entry.child "files"⟩

/-- Reads the index of a builder's entry. -/
def readIndex (c : DiskCache) (id : BuilderId) (d : Disk) : Except CacheError EntryIndex := do
  let path := (c.entryDir id).child "entry.json"
  let text ← (d.readText path).mapError fun
    | .missing => .missing id
    | cause => .io path cause
  (EntryIndex.read id text).mapError (.corrupt id)

/-- Reads the fingerprint of a builder's entry. -/
def readFingerprint (c : DiskCache) (id : BuilderId) (d : Disk) :
    Except CacheError Fingerprint := do
  discard (c.readIndex id d)
  let path := (c.entryDir id).child "fingerprint.bin"
  let encoded ← (d.read path).mapError (.io path)
  (c.registry.decode encoded).mapError fun e => .corrupt id (.fingerprint e)

/-- Puts an entry together in a staging directory. -/
def stage (staging : OsPath) (id : BuilderId) (encoded : Bytes) (outputs : Outputs)
    (read : RelativePath → Except FsError Bytes) : DiskM CacheError Unit := do
  let files := filesIn staging
  (Disk.makeDirs files.root).mapError (.io files.root)
  for p in outputs.toList do
    let content ← DiskM.ask fun _ => (read p).mapError (.artifact id)
    (files.write p content).mapError (.artifact id)
  let put (name : String) (content : Bytes) : DiskM CacheError Unit :=
    (Disk.writeFile (staging.child name) content).mapError (.io (staging.child name))
  put "entry.json" (Bytes.ofText (EntryIndex.text ⟨EntryIndex.currentVersion, id, outputs⟩))
  put "fingerprint.bin" encoded

/-- Moves a staged entry to its place; an entry that is there is removed first. -/
def install (staging : Place) (entry : OsPath) : DiskM CacheError Unit := do
  if (← DiskM.disk).present entry then
    (Disk.removeTree entry).mapError (.io entry)
  (Disk.rename staging entry).mapError (.io entry)

/-- Replaces the entry of a builder by the files that `read` gives. -/
def store (c : DiskCache) (id : BuilderId) (fp : Fingerprint) (outputs : Outputs)
    (read : RelativePath → Except FsError Bytes) : DiskM CacheError Unit := do
  let encoded ← DiskM.ask fun _ => fp.encode.mapError (.protocol id)
  let root ← DiskM.ask fun d => (d.dirAt c.root).mapError (.io c.root)
  let staging := c.root.push ((← DiskM.disk).freshName root ".staging-")
  let made ← DiskM.ask fun d => (d.resolve false staging).mapError (.io c.root)
  DiskM.change (.makeDir made.place)
  tryCatch
    (do
      stage staging id encoded outputs read
      install made.place (c.entryDir id))
    fun e => do
      DiskM.ignore (Disk.removeTree staging)
      throw e

/-- Removes the entry of a builder; whether there was one. -/
def remove (c : DiskCache) (id : BuilderId) : DiskM CacheError Bool := do
  let entry := c.entryDir id
  match ← DiskM.attempt (Disk.removeTree entry) with
  | .ok () => return true
  | .error .missing => return false
  | .error e => throw (.io entry e)

/-- Removes everything but the lock file. -/
def clear (c : DiskCache) : DiskM CacheError Unit := do
  let root ← DiskM.ask fun d => (d.dirAt c.root).mapError (.io c.root)
  for (name, _) in (← DiskM.disk).children root do
    let path := c.root.push name
    unless path.components = c.lock.path.components do
      let remove := if (← DiskM.disk).isDir path then Disk.removeTree path else Disk.removeFile path
      remove.mapError (.io path)

variable {σ : Type}

/-- Opens the cache at a root, which is made if it is missing. -/
def openIn (part : Part σ Disk) (root : OsPath) (registry : Registry) (process started : Nat) :
    Action σ (Except CacheError DiskCache) := do
  match ← CacheLock.acquireIn part root ⟨holderName, process, started⟩ with
  | .error e => return .error (.lock e)
  | .ok lock =>
    Action.tell (.cacheOpened root)
    return .ok ⟨root, registry, lock⟩

/-- Opens the cache that an environment points to. -/
def openDefault (part : Part σ Disk) (env : Environment) (registry : Registry)
    (process started : Nat) : Action σ (Except CacheError DiskCache) :=
  match env.cacheDir with
  | some root => openIn part root registry process started
  | none => return .error .noRoot

/-- Removes all entries. -/
def clearIn (part : Part σ Disk) (c : DiskCache) : Action σ (Except CacheError Unit) := do
  let cleared ← Action.change (part.change c.clear.run)
  if cleared matches .ok () then Action.tell (.cacheCleared c.root)
  return cleared

/-- Copies the files of an entry into a directory, in order, until one fails. -/
def copyOut (part : Part σ Disk) (files : LocalDirectory) (id : BuilderId) (target : Directory σ) :
    List RelativePath → σ → Except CacheError Unit × σ
  | [], s => (.ok (), s)
  | p :: rest, s =>
    match files.read p (part.get s) with
    | .error e => (.error (.corrupt id (.artifact e)), s)
    | .ok content =>
      match target.write p content s with
      | (.ok (), s) => copyOut part files id target rest s
      | (.error e, s) => (.error (.artifact id e), s)

/-- The cache as one of a world that holds the disk. -/
def cache (part : Part σ Disk) (c : DiskCache) : Cache σ where
  contains id fp := do
    match c.readFingerprint id (← Action.ask part.get) with
    | .ok stored => return stored.agrees fp
    | .error (.missing _) => return false
    | .error e =>
      Action.tell (.unusableEntry id e)
      return false
  store id fp outputs source := do
    let s := (← get).world
    let stored ← Action.change (part.change (c.store id fp outputs (source.read · s)).run)
    if stored matches .ok () then Action.tell (.storedOnDisk id outputs.size (c.entryDir id))
    return stored
  restore id target := do
    match c.readIndex id (← Action.ask part.get) with
    | .error e => return .error e
    | .ok index =>
      let copied ← Action.change
        (copyOut part (filesIn (c.entryDir id)) id target index.files.toList)
      match copied with
      | .error e => return .error e
      | .ok () =>
        Action.tell (.restoredFromDisk id index.files.size)
        return .ok index.files

end DiskCache

end Rebuild
