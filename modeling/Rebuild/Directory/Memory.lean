import Rebuild.Directory.Basic
import Rebuild.Log.Action
import Rebuild.Sorted.Map

/-!
# Directories in memory

A map from paths to contents. A path may be a file and lead to other files at the same time.
-/
namespace Rebuild

/-- A named map from paths to contents. -/
structure MemoryDirectory where
  name : String
  files : SortedMap RelativePath Bytes := ∅
  deriving DecidableEq

namespace MemoryDirectory

def label (d : MemoryDirectory) : String := "memory:" ++ d.name

def holds (d : MemoryDirectory) (p : RelativePath) : Bool := d.files.contains p

def read (d : MemoryDirectory) (p : RelativePath) : Except FsError Bytes :=
  match d.files.get? p with
  | some content => .ok content
  | none => .error (.notFound p)

def write (d : MemoryDirectory) (p : RelativePath) (content : Bytes) : MemoryDirectory :=
  { d with files := d.files.insert p content }

def delete (d : MemoryDirectory) (p : RelativePath) : Except FsError Unit × MemoryDirectory :=
  if d.files.contains p then (.ok (), { d with files := d.files.erase p })
  else (.error (.notFound p), d)

/-- All files, or those below a path. -/
def list (d : MemoryDirectory) (below : Option RelativePath) : List RelativePath :=
  d.files.keys.filter fun p => below.all fun dir => p.startsWith dir && p ≠ dir

@[simp] theorem read_write_self (d : MemoryDirectory) (p : RelativePath) (content : Bytes) :
    (d.write p content).read p = .ok content := by
  simp [read, write]

theorem read_write_of_ne (d : MemoryDirectory) {p q : RelativePath} (content : Bytes)
    (h : q ≠ p) : (d.write p content).read q = d.read q := by
  simp [read, write, SortedMap.get?_insert_of_ne h]

theorem holds_iff (d : MemoryDirectory) (p : RelativePath) :
    d.holds p = true ↔ ∃ content, d.read p = .ok content := by
  unfold holds read SortedMap.contains
  cases d.files.get? p <;> simp

/-- The directory as one of a world that holds it. -/
def directory {σ : Type} (part : Part σ MemoryDirectory) (label : String) : Directory σ where
  label
  holds p s := (part.get s).holds p
  read p s := (part.get s).read p
  write p content := part.change fun d => (.ok (), d.write p content)
  delete p := part.change fun d => d.delete p
  list below s := .ok ((part.get s).list below)

end MemoryDirectory

end Rebuild
