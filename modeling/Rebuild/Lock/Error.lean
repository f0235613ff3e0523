import Rebuild.Disk.Error
import Rebuild.Path.Os

/-!
# Errors of the cache lock

Why the lock of a cache root cannot be taken.
-/
namespace Rebuild

/-- What the lock file says about its holder. -/
structure LockHolder where
  name : String
  process : Nat
  started : Nat
  deriving DecidableEq, Repr

/-- Why a cache root cannot be locked. -/
inductive LockError where
  /-- Another handle has the lock; its holder is named if the lock file can be read. -/
  | contention (holder : Option LockHolder) (lock : OsPath)
  | createRoot (root : OsPath) (cause : OsError)
  | openFile (cause : OsError)
  /-- The root cannot be written into the lock file, which holds text. -/
  | rootNotText
  deriving DecidableEq, Repr

def LockError.message : LockError → String
  | .contention holder lock =>
    let who := match holder with
      | some h => s!"is in use by {h.name} (PID {h.process}, since unix time {h.started})"
      | none => "is in use (holder unknown)"
    s!"build cache {who}\nIf no other build is running, remove the lock file:\n  {lock.display}"
  | .createRoot root cause => s!"failed to create cache directory {root.display}: {cause.message}"
  | .openFile cause => s!"failed to open lock file: {cause.message}"
  | .rootNotText => "failed to write lock metadata: path contains invalid UTF-8 characters"

end Rebuild
