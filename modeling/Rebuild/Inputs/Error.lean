import Rebuild.Directory.Error
import Rebuild.Inputs.IgnoreList
import Rebuild.Parameters.Value

/-!
# Errors of inputs

Why no fingerprint can be taken of a builder's inputs.
-/
namespace Rebuild

/-- Why inputs cannot be set up or fingerprinted. -/
inductive InputError where
  | unreadable (directory : String) (path : RelativePath) (cause : FsError)
  | invalidRule (rule : InvalidRule)
  | parameters (name : String) (cause : ParameterError)
  deriving DecidableEq

def InputError.message : InputError → String
  | .unreadable directory path cause =>
    s!"cannot read input {path.text} in {directory}: {cause.message}"
  | .invalidRule rule => rule.message
  | .parameters name cause => s!"cannot serialize parameters {quoted name}: {cause.message}"

end Rebuild
