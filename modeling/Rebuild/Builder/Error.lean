import Rebuild.Inputs.Error

/-!
# Failures of builders

How the run of a builder can go wrong: it reports an error, or it breaks down without one.
-/
namespace Rebuild

/-- The error that a builder reports. -/
inductive BuilderError where
  | fs (error : FsError)
  | inputs (error : InputError)
  /-- An error of the builder's own making. -/
  | other (message : String)
  deriving DecidableEq

def BuilderError.message : BuilderError → String
  | .fs error => error.message
  | .inputs error => error.message
  | .other message => message

/-- How a run ends that gives no outputs. -/
inductive RunFailure where
  | failed (error : BuilderError)
  | panicked
  deriving DecidableEq

end Rebuild
