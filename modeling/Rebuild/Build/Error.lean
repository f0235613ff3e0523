import Rebuild.Builder.Error
import Rebuild.Graph.Selection

/-!
# Errors of a build

Why a build does not run, or what went wrong in it.
-/
namespace Rebuild

/-- An error of a build context. -/
inductive BuildError where
  /-- A transformation of the edges vetoed the run. -/
  | cancelled
  | graph (error : GraphError)
  | notRun (id : BuilderId)
  /-- The context has run before. -/
  | alreadyRun
  | failed (id : BuilderId) (cause : BuilderError)
  | panicked (id : BuilderId)
  /-- The place to which the graph is written refuses the text. -/
  | dump (reason : String)
  deriving DecidableEq

def BuildError.message : BuildError → String
  | .cancelled => "build cancelled by transformation"
  | .graph error => error.message
  | .notRun id => s!"builder {id.text} has not run in this build context"
  | .alreadyRun => "build context has already run"
  | .failed id cause => s!"builder {id.text} failed: {cause.message}"
  | .panicked id => s!"builder {id.text} did not complete: the builder panicked"
  | .dump reason => s!"cannot write graph dump: {reason}"

end Rebuild
