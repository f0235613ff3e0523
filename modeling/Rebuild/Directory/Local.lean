import Rebuild.Directory.Basic
import Rebuild.Disk.Action
import Rebuild.Log.Action

/-!
# Directories on the disk

The files below a root, which need not exist. Files are replaced at once, so that no reader sees one
half written.
-/
namespace Rebuild

/-- A directory on the disk. The root is an absolute path. -/
structure LocalDirectory where
  root : OsPath
  deriving DecidableEq, Repr

/-- The error for a file that the operating system refuses to open or to remove. -/
def FsError.ofOs (p : RelativePath) : OsError → FsError
  | .missing => .notFound p
  | cause => .io p cause

namespace LocalDirectory

def label (dir : LocalDirectory) : String := dir.root.display

/-- The directory at a path below. -/
def child (dir : LocalDirectory) (p : RelativePath) : LocalDirectory := ⟨p.under dir.root⟩

/-- Whether a path leads to a file. -/
def holds (dir : LocalDirectory) (p : RelativePath) (d : Disk) : Bool := d.isFile (p.under dir.root)

def read (dir : LocalDirectory) (p : RelativePath) (d : Disk) : Except FsError Bytes :=
  (d.read (p.under dir.root)).mapError (.ofOs p)

/-- The directory that holds a file. -/
def parentOf (dir : LocalDirectory) (p : RelativePath) : OsPath :=
  p.parent?.elim dir.root.trimStays (·.under dir.root)

def write (dir : LocalDirectory) (p : RelativePath) (content : Bytes) : DiskM FsError Unit :=
  (Disk.replaceFile (dir.parentOf p) (p.under dir.root) content).mapError (.io p)

def delete (dir : LocalDirectory) (p : RelativePath) : DiskM FsError Unit :=
  (Disk.removeFile (p.under dir.root)).mapError (.ofOs p)

/-- The names that lead to the files below a place, directory by directory. -/
def fileNames (d : Disk) (p : Place) : List Place :=
  (d.below p).filterMap fun (q, item) =>
    match item with
    | .file .. => some q
    | _ => none

/-- All files, or those below a path; links are no files. A root that is no directory has none. -/
def list (dir : LocalDirectory) (below : Option RelativePath) (d : Disk) :
    Except FsError (List RelativePath) :=
  match d.dirAt (below.elim dir.root (·.under dir.root)) with
  | .error _ => .ok []
  | .ok place => do
    let start := below.elim [] (·.under [])
    let files ← (fileNames d place).mapM fun names =>
      (RelativePath.ofOs (names.foldl OsPath.push start)).mapError .invalidPath
    return (SortedSet.ofList files).toList

/-- The directory as one of a world that holds the disk. -/
def directory {σ : Type} (part : Part σ Disk) (dir : LocalDirectory) : Directory σ where
  label := dir.label
  holds p s := dir.holds p (part.get s)
  read p s := dir.read p (part.get s)
  write p content := part.change (dir.write p content).run
  delete p := part.change (dir.delete p).run
  list below s := dir.list below (part.get s)

end LocalDirectory

end Rebuild
