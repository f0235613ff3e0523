import Rebuild.Environment
import Rebuild.Log.Event

/-!
# Build settings

How many builders may run at the same time, and whether a failure holds back the later waves.
Settings of the environment that cannot be read are passed over with a warning.
-/
namespace Rebuild

/-- How a build runs. -/
structure Config where
  parallelism : Nat
  failFast : Bool := false
  deriving DecidableEq, Repr

namespace Config

/-- At least one builder may run. -/
def withParallelism (c : Config) (n : Nat) : Config := { c with parallelism := Nat.max n 1 }

def withFailFast (c : Config) (b : Bool) : Config := { c with failFast := b }

/-- The settings on a machine with so many processors. -/
def standard (processors : Nat) : Config := { parallelism := processors }

/-- The settings that the environment asks for. -/
def ofEnvironment (processors : Nat) (env : Environment) : Config where
  parallelism := (env.jobs?.bind Prod.snd).getD processors
  failFast := (env.failFast?.bind Prod.snd).getD false

/-- The warnings about the environment. -/
def warnings (env : Environment) : List Event :=
  (match env.jobs? with
    | some (s, none) => [.invalidJobs s]
    | _ => [])
  ++ match env.failFast? with
    | some (s, none) => [.invalidFailFast s]
    | _ => []

end Config

end Rebuild
