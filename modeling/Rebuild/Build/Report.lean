import Rebuild.Build.Error
import Rebuild.Path.Basic
import Rebuild.Sorted.Set

/-!
# Reports

What became of every builder of a run. A run is a success if no builder failed, was skipped or was
held back; its result is the union of all outputs, or the first failure.
-/
namespace Rebuild

/-- The files that a builder produced. -/
abbrev Outputs := SortedSet RelativePath

/-- A builder that did not run because a prerequisite failed or was skipped itself. -/
structure Skipped where
  builder : BuilderId
  prerequisite : BuilderId
  deriving DecidableEq, Repr

def Skipped.text (s : Skipped) : String :=
  s!"{s.builder.text} (prerequisite {s.prerequisite.text} failed)"

/-- The outcome of a run. The lists are in order of waves, and within a wave in order of mention. -/
structure Report where
  results : SortedMap BuilderId Outputs := ∅
  executed : List BuilderId := []
  failed : List BuildError := []
  skipped : List Skipped := []
  /-- Builders that could have run, had the run not stopped at a failure. -/
  notStarted : List BuilderId := []

namespace Report

def isSuccess (r : Report) : Bool := r.failed.isEmpty && r.skipped.isEmpty && r.notStarted.isEmpty

/-- The union of the outputs of all builders that ran. -/
def outputs (r : Report) : Outputs := r.results.values.foldl SortedSet.union ∅

/-- All outputs, or the first failure. -/
def result (r : Report) : Except BuildError Outputs :=
  match r.failed with
  | [] => .ok r.outputs
  | error :: _ => .error error

end Report

end Rebuild
