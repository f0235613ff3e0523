import Rebuild.Session.Inputs

/-!
# Caches and locks in a session

A cache on the disk comes with its lock, and two of one root exclude each other. Giving up the name
of a cache gives up the lock only when no builder keeps the cache: see `Session.settle`.
-/
namespace Rebuild.Session
open SessionM

/-- The number of the process that runs the session. -/
def process : Nat := 4177919

/-- When the session started, in seconds. -/
def started : Nat := 1700000000

def nameCache (name : String) (cache : NamedCache) : SessionM Unit :=
  modify fun s => { s with caches := s.caches.insert name cache }

/-- A new cache in memory, by its number. -/
def newMemoryCache : SessionM Nat :=
  SessionM.change fun w => (w.caches.length, { w with caches := w.caches ++ [{}] })

def makeMemoryCache (name : String) : SessionM Unit := do
  nameCache name (.memory (← newMemoryCache))

def makeVanishingCache (name : String) : SessionM Unit := do
  nameCache name (.vanishing (← newMemoryCache))

/-- Opens the cache at a root. -/
def openCache (name : String) (root : OsPath) (registry : Registry) : SessionM DiskCache := do
  let cache ← attempt .cache
    (DiskCache.openIn World.diskPart (place root) registry process started)
  nameCache name (.onDisk cache)
  return cache

/-- Opens the cache that an environment points to. -/
def openDefaultCache (name : String) (env : Environment) (registry : Registry) :
    SessionM DiskCache := do
  let cache ← attempt .cache (DiskCache.openDefault World.diskPart env registry process started)
  nameCache name (.onDisk cache)
  return cache

/-- Gives up the name of a cache; whether there was one. -/
def closeCache (name : String) : SessionM Bool :=
  modifyGet fun s => (s.caches.contains name, { s with caches := s.caches.erase name })

def cacheContains (name : String) (id : BuilderId) (fp : Fingerprint) : SessionM Bool := do
  act ((← find caches name).cache.contains id fp)

def storeInCache (name : String) (id : BuilderId) (fp : Fingerprint) (outputs : List RelativePath)
    (dir : String) : SessionM Unit := do
  let cache := (← find caches name).cache
  attempt .cache (cache.store id fp (.ofList outputs) (← directory dir))

def restoreFromCache (name : String) (id : BuilderId) (dir : String) : SessionM Outputs := do
  let cache := (← find caches name).cache
  attempt .cache (cache.restore id (← directory dir))

/-- Removes an entry; whether there was one. -/
def removeFromCache (name : String) (id : BuilderId) : SessionM Bool := do
  match ← find caches name with
  | .memory n | .vanishing n => SessionM.change ((World.cachePart n).change (·.remove id))
  | .onDisk cache => onDisk .cache (cache.remove id)

/-- Removes all entries of a cache on the disk. -/
def clearCache (name : String) : SessionM Unit := do
  match ← find caches name with
  | .onDisk cache => attempt .cache (cache.clearIn World.diskPart)
  | _ => throw (.unknownName name)

/-- The number of entries of a cache in memory. -/
def entryCount (name : String) : SessionM Nat := do
  match ← find caches name with
  | .memory n | .vanishing n => ask fun w => ((World.cachePart n).get w).entries.size
  | .onDisk _ => throw (.unknownName name)

/-- Locks a cache root; the lock file. -/
def lockRoot (name : String) (root : OsPath) (holder : String) : SessionM OsPath := do
  let lock ← attempt (.cache ∘ .lock)
    (CacheLock.acquireIn World.diskPart (place root) ⟨holder, process, started⟩)
  modify fun s => { s with locks := s.locks.insert name lock }
  return lock.path

/-- Gives up a lock; whether there was one. -/
def unlock (name : String) : SessionM Bool :=
  modifyGet fun s => (s.locks.contains name, { s with locks := s.locks.erase name })

/-- What the file of a lock says. -/
def metadata (lock : CacheLock) : SessionM LockMetadata := do
  match ← ask fun w => lock.metadata? w.disk with
  | some m => return m
  | none => throw .unreadableLock

def lockMetadata (name : String) : SessionM LockMetadata := do metadata (← find locks name)

def cacheLockMetadata (name : String) : SessionM LockMetadata := do
  match ← find caches name with
  | .onDisk cache => metadata cache.lock
  | _ => throw (.unknownName name)

end Rebuild.Session
