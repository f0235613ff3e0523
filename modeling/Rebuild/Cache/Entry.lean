import Rebuild.Cache.Error
import Rebuild.Inputs.SourceSet

/-!
# The index of an entry

The file that says whose entry a directory of the cache on disk is, and which files it holds.
-/
namespace Rebuild

/-- The index of an entry. -/
structure EntryIndex where
  version : Nat
  builder : BuilderId
  files : SortedSet RelativePath
  deriving DecidableEq

namespace EntryIndex

/-- The version that is written, and the only one that is read. -/
def currentVersion : Nat := 1

/-- The text of an index. -/
def text (index : EntryIndex) : String :=
  Json.pretty <| .object [
    ("version", .integer index.version), ("builder", index.builder.json),
    ("files", .strings (index.files.toList.map (·.text)))]

/-- Reads the text of an index. -/
def ofText? (s : String) : Option EntryIndex := do
  match ← (← Json.Tree.parse s).fields? ["version", "builder", "files"] with
  | [version, builder, files] =>
    return ⟨← version.unsigned? (Nat.pow 2 32), ← BuilderId.ofTree? builder,
      ← RelativePath.setOfTree? files⟩
  | _ => none

/-- Reads the text of an index that must be the index of a builder. -/
def read (id : BuilderId) (s : String) : Except EntryFault EntryIndex :=
  match ofText? s with
  | none => .error .unreadableIndex
  | some index =>
    if index.version ≠ currentVersion then .error (.version index.version)
    else if index.builder ≠ id then .error (.foreign index.builder)
    else .ok index

end EntryIndex

end Rebuild
