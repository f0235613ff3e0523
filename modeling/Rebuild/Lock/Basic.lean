import Rebuild.Disk.Action
import Rebuild.Json.Printer
import Rebuild.Json.Reader
import Rebuild.Log.Action

/-!
# The lock of a cache root

The file `.lock` in a cache root is locked as long as the cache is open. It names its holder, for
others to see. The lock lies on the file, not on its name: a file that is put in its place can be
locked anew, and the old one can still be read by who holds it.

* `CacheLock.acquire`, `CacheLock.release`: taking the lock without waiting, and giving it up.
* `LockMetadata.ofText?`: reading what a lock file says.
-/
namespace Rebuild

/-- What a lock file says. -/
structure LockMetadata where
  version : Nat
  holder : LockHolder
  root : String
  deriving DecidableEq, Repr

namespace LockMetadata

/-- The text of a lock file. -/
def text (m : LockMetadata) : String :=
  Json.pretty <| .object [
    ("version", .integer m.version), ("pid", .integer m.holder.process),
    ("started_at_unix", .integer m.holder.started), ("holder", .string m.holder.name),
    ("cache_root", .string m.root)]

/-- The text of a lock file as far as the root, which comes last: with an empty root, all but its
quotes and the end of the object. -/
def textToRoot (version : Nat) (holder : LockHolder) : String :=
  let whole := (text ⟨version, holder, ""⟩).toList
  String.ofList (whole.take (whole.length - 4))

/-- Reads the text of a lock file. -/
def ofText? (s : String) : Option LockMetadata := do
  let names := ["version", "pid", "started_at_unix", "holder", "cache_root"]
  match ← (← Json.Tree.parse s).fields? names with
  | [version, process, started, name, root] =>
    return {
      version := ← version.unsigned? (Nat.pow 2 32)
      holder := ⟨← name.text?, ← process.unsigned? (Nat.pow 2 32),
        ← started.unsigned? (Nat.pow 2 64)⟩
      root := ← root.text? }
  | _ => none

end LockMetadata

/-- A lock that is held. -/
structure CacheLock where
  path : OsPath
  /-- The serial number of the lock file. -/
  serial : Nat
  deriving DecidableEq, Repr

namespace CacheLock

/-- The lock file of a cache root. -/
def pathIn (root : OsPath) : OsPath := root.child ".lock"

/-- The lock file at a path, made if it is missing: its serial number. -/
def openFile (p : OsPath) : DiskM OsError Nat := do
  let found ← DiskM.ask fun d => d.resolve true p
  match found.item with
  | some (.file serial _) => return serial
  | some _ => throw .isDirectory
  | none =>
    let serial := (← DiskM.disk).serials
    DiskM.change (.makeFile found.place [])
    return serial

/-- Who holds the lock, as the lock file says. -/
def holderAt (d : Disk) (p : OsPath) : Option LockHolder := do
  return (← LockMetadata.ofText? (← (d.readText p).toOption)).holder

/-- Writes into a lock file who holds the lock. A root that is not text breaks the writing off. -/
def sign (path root : OsPath) (holder : LockHolder) : DiskM LockError Unit :=
  match root.text? with
  | some rootText =>
    (Disk.writeFile path (Bytes.ofText (LockMetadata.text ⟨1, holder, rootText⟩))).mapError
      .openFile
  | none => do
    (Disk.writeFile path (Bytes.ofText (LockMetadata.textToRoot 1 holder))).mapError .openFile
    throw .rootNotText

/-- Takes the lock of a root, which is made if it is missing. Does not wait. -/
def acquire (root : OsPath) (holder : LockHolder) : DiskM LockError CacheLock := do
  (Disk.makeDirs root).mapError (.createRoot root)
  let path := pathIn root
  let serial ← (openFile path).mapError .openFile
  if (← DiskM.disk).locked.contains serial then
    throw (.contention (holderAt (← DiskM.disk) path) path)
  sign path root holder
  modifyThe Journal fun j => { j with disk := j.disk.lock serial }
  return ⟨path, serial⟩

/-- Gives the lock up. -/
def release (l : CacheLock) (d : Disk) : Disk := d.unlock l.serial

/-- Reads the lock file as the holder of the lock. -/
def metadata? (l : CacheLock) (d : Disk) : Option LockMetadata := do
  LockMetadata.ofText? (← (← d.contentOf? l.serial).text?)

/-- Takes the lock of a root on the disk of a world. -/
def acquireIn {σ : Type} (part : Part σ Disk) (root : OsPath) (holder : LockHolder) :
    Action σ (Except LockError CacheLock) := do
  let taken ← Action.change (part.change (acquire root holder).run)
  if let .ok lock := taken then Action.tell (.lockAcquired lock.path holder.name)
  return taken

end CacheLock

end Rebuild
