import Rebuild.Directory.Error

/-!
# Directories

A directory is where builders find and put files, by relative paths. It may lie in memory or on a
disk; `Directory` is what the two have in common.
-/
namespace Rebuild

/-- A directory in a world. -/
structure Directory (σ : Type) where
  /-- How messages call the directory. -/
  label : String
  holds : RelativePath → σ → Bool
  read : RelativePath → σ → Except FsError Bytes
  /-- Creates or replaces a file. -/
  write : RelativePath → Bytes → σ → Except FsError Unit × σ
  delete : RelativePath → σ → Except FsError Unit × σ
  /-- The files, or those below a path, in order. -/
  list : Option RelativePath → σ → Except FsError (List RelativePath)

namespace Directory

variable {σ : Type}

/-- Writes files in order, until one fails. -/
def writeAll (dir : Directory σ) : List (RelativePath × Bytes) → σ → Except FsError Unit × σ
  | [], s => (.ok (), s)
  | (p, content) :: rest, s =>
    match dir.write p content s with
    | (.ok (), s) => dir.writeAll rest s
    | (.error e, s) => (.error e, s)

end Directory

end Rebuild
