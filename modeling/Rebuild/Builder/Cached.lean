import Rebuild.Builder.Basic
import Rebuild.Cache.Basic

/-!
# Cached builders

A builder that first asks a cache. If its inputs are as they were when its outputs were stored, it
copies these to where the outputs belong; otherwise the builder inside runs, and its outputs are
stored. Faults of the cache never make it fail, and a failed run never reaches the cache.
-/
namespace Rebuild

variable {σ : Type}

namespace Cache

/-- The outputs stored under a fingerprint that agrees, copied to where they belong. -/
def reuse (cache : Cache σ) (id : BuilderId) (fp : Fingerprint) (target : Directory σ) :
    Action σ (Option Outputs) := do
  if ← cache.contains id fp then
    match ← cache.restore id target with
    | .ok outputs =>
      Action.tell (.upToDate id outputs.size)
      return some outputs
    | .error e =>
      Action.tell (.restoreFailed id e)
      return none
  else
    Action.tell (.cacheMiss id)
    return none

/-- Stores outputs if it can. -/
def keep (cache : Cache σ) (id : BuilderId) (fp : Fingerprint) (outputs : Outputs)
    (target : Directory σ) : Action σ Unit := do
  if let .error e ← cache.store id fp outputs target then Action.tell (.storeFailed id e)

end Cache

namespace Builder

/-- Runs a builder unless the cache has its outputs. -/
def runCached (inner : Builder σ) (cache : Cache σ) (target : Directory σ) :
    Action σ (Except RunFailure Outputs) := do
  let (events, fp) := inner.inputs.survey (← get).world
  Action.tellAll events
  match fp with
  | .error e => return .error (.failed (.inputs e))
  | .ok fp =>
    if let some outputs ← cache.reuse inner.id fp target then return .ok outputs
    match ← inner.run with
    | .error failure => return .error failure
    | .ok outputs =>
      cache.keep inner.id fp outputs target
      return .ok outputs

/-- A builder with a cache in front of it. -/
def cached (inner : Builder σ) (serial : Nat) (cache : Cache σ) (target : Directory σ)
    (locks : List Nat) : Builder σ where
  id := inner.id
  serial
  inputs := inner.inputs
  run := inner.runCached cache target
  locks := locks ++ inner.locks

end Builder

end Rebuild
