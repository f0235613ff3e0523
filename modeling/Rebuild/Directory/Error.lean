import Rebuild.Disk.Error
import Rebuild.Path.Parse
import Rebuild.Text.Utf8

/-!
# Errors of a directory

Why a file of a directory cannot be reached.
-/
namespace Rebuild

/-- Why an operation on a directory fails. -/
inductive FsError where
  | invalidPath (error : PathError)
  | notFound (path : RelativePath)
  | io (path : RelativePath) (cause : OsError)
  deriving DecidableEq

def FsError.message : FsError → String
  | .invalidPath error => error.message
  | .notFound path => s!"file not found: {path.text}"
  | .io path cause => s!"io error at {path.text}: {cause.message}"

end Rebuild
