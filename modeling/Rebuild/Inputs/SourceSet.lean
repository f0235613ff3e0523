import Rebuild.Json.Printer
import Rebuild.Json.Reader
import Rebuild.Path.Parse
import Rebuild.Sorted.Set

/-!
# Source sets

A named set of files. Its JSON form lists the files in order; a form read back may list them in any
order, more than once and spelled in any way.
-/
namespace Rebuild

/-- A named set of files. -/
structure SourceSet where
  name : String
  files : SortedSet RelativePath := ∅
  deriving DecidableEq

namespace SourceSet

/-- Adds a file; also whether it was not there before. -/
def add (s : SourceSet) (p : RelativePath) : Bool × SourceSet :=
  (!s.files.contains p, { s with files := s.files.insert p })

/-- Removes a file; also whether it was there. -/
def remove (s : SourceSet) (p : RelativePath) : Bool × SourceSet :=
  (s.files.contains p, { s with files := s.files.erase p })

/-- The JSON form. -/
def json (s : SourceSet) : Json :=
  .object [("name", .string s.name), ("files", .strings (s.files.toList.map (·.text)))]

end SourceSet

namespace RelativePath

/-- Reads the JSON form, a string. -/
def ofTree? (t : Json.Tree) : Option RelativePath := do
  match parse (← t.text?) with
  | .ok p => some p
  | .error _ => none

/-- Reads a list of paths as a set. -/
def setOfTree? (t : Json.Tree) : Option (SortedSet RelativePath) := do
  return .ofList (← t.items? ofTree?)

end RelativePath

namespace SourceSet

/-- Reads the JSON form. -/
def ofTree? (t : Json.Tree) : Option SourceSet := do
  match ← t.fields? ["name", "files"] with
  | [name, files] => return ⟨← name.text?, ← RelativePath.setOfTree? files⟩
  | _ => none

end SourceSet

end Rebuild
