/-!
# Errors of the disk

Why the operating system refuses an operation, each with its one text.
-/
namespace Rebuild

/-- A refusal of the operating system, or of the layer that hands paths to it. -/
inductive OsError where
  | missing
  | exists
  | notDirectory
  | isDirectory
  | invalidArgument
  | nameTooLong
  | notEmpty
  | tooManyLinks
  /-- A path with a NUL byte, which cannot be handed over. -/
  | nulByte
  /-- Contents that should be text and are not. -/
  | notText
  deriving DecidableEq, Repr

def OsError.message : OsError → String
  | .missing => "No such file or directory (os error 2)"
  | .exists => "File exists (os error 17)"
  | .notDirectory => "Not a directory (os error 20)"
  | .isDirectory => "Is a directory (os error 21)"
  | .invalidArgument => "Invalid argument (os error 22)"
  | .nameTooLong => "File name too long (os error 36)"
  | .notEmpty => "Directory not empty (os error 39)"
  | .tooManyLinks => "Too many levels of symbolic links (os error 40)"
  | .nulByte => "file name contained an unexpected NUL byte"
  | .notText => "stream did not contain valid UTF-8"

end Rebuild
