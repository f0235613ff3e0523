import Rebuild.Session.World
import Rebuild.Build.Run
import Rebuild.Builder.Cached

/-!
# Sessions

A session works on named objects in a world: directories, source sets, inputs, fingerprints, caches,
locks, builders and contexts. An object that is given a used name takes the name over; what was
built on the old object keeps it. A lock is held until nothing with a name leads to it any more.

* `SessionM`: what is done in a session; it may fail, and what was done before stays done.
* `Session.settle`: gives up the locks that nothing leads to.
-/
namespace Rebuild

/-- A directory with a name. -/
inductive NamedDirectory where
  | memory (label : String) (number : Nat)
  | onDisk (dir : LocalDirectory)

/-- A cache with a name. -/
inductive NamedCache where
  | memory (number : Nat)
  | vanishing (number : Nat)
  | onDisk (cache : DiskCache)

/-- A session. -/
structure Session where
  traced : Traced World := ⟨{}, []⟩
  directories : SortedMap String NamedDirectory := ∅
  sets : SortedMap String Nat := ∅
  inputs : SortedMap String (Inputs World) := ∅
  fingerprints : SortedMap String Fingerprint := ∅
  caches : SortedMap String NamedCache := ∅
  locks : SortedMap String CacheLock := ∅
  scripts : SortedMap String (BuilderId × Nat) := ∅
  builders : SortedMap String (Builder World) := ∅
  contexts : SortedMap String (Context World) := ∅
  /-- The next serial number of a builder. -/
  serials : Nat := 0

/-- Why a step of a session fails. -/
inductive SessionError where
  | unknownName (name : String)
  | fs (error : FsError)
  | input (error : InputError)
  | cache (error : CacheError)
  | build (error : BuildError)
  | builder (id : BuilderId) (failure : RunFailure)
  | os (error : OsError)
  | unreadableLock

/-- A step of a session. -/
abbrev SessionM (α : Type) := ExceptT SessionError (StateM Session) α

/-- The directory behind a name. -/
def NamedDirectory.directory : NamedDirectory → Directory World
  | memory label n => MemoryDirectory.directory (World.directoryPart n) label
  | onDisk dir => LocalDirectory.directory World.diskPart dir

/-- The cache behind a name. -/
def NamedCache.cache : NamedCache → Cache World
  | memory n => MemoryCache.cache (World.cachePart n)
  | vanishing n => MemoryCache.vanishing (World.cachePart n)
  | onDisk c => DiskCache.cache World.diskPart c

/-- The locks that a cache keeps. -/
def NamedCache.locks : NamedCache → List Nat
  | onDisk c => [c.lock.serial]
  | _ => []

namespace Session

/-- The directory in which a session works. -/
def home : OsPath := Bytes.ofText "<tmp>"

/-- A session that has nothing but an empty directory to work in. -/
def start : Session :=
  { traced := ⟨{ disk := (DiskOp.makeDir [home]).apply {} }, []⟩ }

/-- The locks to which something with a name leads. -/
def heldLocks (s : Session) : List Nat :=
  s.locks.values.map (·.serial) ++ s.caches.values.flatMap NamedCache.locks
    ++ s.builders.values.flatMap (·.locks)
    ++ s.contexts.values.flatMap fun c => c.graph.nodes.flatMap fun n => n.2.locks

/-- Gives up the locks that nothing leads to. -/
def settle (s : Session) : Session :=
  let disk := s.traced.world.disk
  let lost := disk.locked.toList.filter fun n => !s.heldLocks.contains n
  { s with traced := { s.traced with world := { s.traced.world with
    disk := lost.foldl Disk.unlock disk } } }

end Session

namespace SessionM

variable {α : Type}

/-- The object with a name. -/
def find (table : Session → SortedMap String α) (name : String) : SessionM α := do
  match (table (← get)).get? name with
  | some a => return a
  | none => throw (.unknownName name)

/-- Does something in the world. -/
def act (action : Action World α) : SessionM α :=
  modifyGet fun s => let (a, traced) := action.run s.traced; (a, { s with traced })

/-- Does something in the world that may fail. -/
def attempt {ε : Type} (wrap : ε → SessionError) (action : Action World (Except ε α)) :
    SessionM α := do
  match ← act action with
  | .ok a => return a
  | .error e => throw (wrap e)

/-- Asks the world something. -/
def ask (question : World → α) : SessionM α := act (Action.ask question)

/-- Changes the world. -/
def change (f : World → α × World) : SessionM α := act (Action.change f)

/-- Works on the disk. -/
def onDisk {ε : Type} (wrap : ε → SessionError) (x : DiskM ε α) : SessionM α :=
  attempt wrap (Action.change (World.diskPart.change x.run))

/-- A new serial number for a builder. -/
def newSerial : SessionM Nat := modifyGet fun s => (s.serials, { s with serials := s.serials + 1 })

end SessionM

end Rebuild
