import Rebuild.Cache.Entry
import Rebuild.Proofs.Json.RoundTrip
import Rebuild.Proofs.Path.Spelling

/-!
# The index of an entry reads back

The text of an index is the indented JSON form of a record, and its parts are
identities and paths, which are read back from their JSON forms.

* `BuilderId.ofTree?_json`, `RelativePath.setOfTree?_strings`: the parts.
* `EntryIndex.ofText?_text`: the index.
-/
namespace Rebuild

theorem BuilderId.ofTree?_json (id : BuilderId) : ofTree? id.json.tree = some id := by
  have hfields : id.json.tree.fields? ["kind", "key"] =
      some [Json.tree (.string id.kind), Json.tree (.string id.key)] :=
    @Json.Tree.fields?_tree [("kind", .string id.kind), ("key", .string id.key)] (by simp)
  unfold ofTree?
  simp only [hfields, bind, Option.bind_some, Json.Tree.text?_tree]
  rfl

theorem RelativePath.ofTree?_text (p : RelativePath) :
    ofTree? (Json.tree (.string p.text)) = some p := by
  unfold ofTree?
  rw [Json.Tree.text?_tree]
  dsimp only [bind, Option.bind]
  rw [parse_text]

theorem RelativePath.setOfTree?_strings (s : SortedSet RelativePath) :
    setOfTree? (Json.tree (.strings (s.toList.map (·.text)))) = some s := by
  have hitems : (Json.tree (.strings (s.toList.map (·.text)))).items? ofTree? = some s.toList := by
    unfold Json.strings
    rw [List.map_map]
    exact Json.Tree.items?_tree fun p _ => ofTree?_text p
  unfold setOfTree?
  rw [hitems]
  show some (SortedSet.ofList s.toList) = some s
  rw [SortedSet.ofList_toList]

theorem Json.areFloatFree_strings : ∀ l : List String, areFloatFree (l.map .string) = true
  | [] => rfl
  | _ :: l => areFloatFree_strings l

namespace EntryIndex

theorem ofText?_text {index : EntryIndex} (h : index.version < Nat.pow 2 32) :
    ofText? index.text = some index := by
  let members : List (String × Json) := [
    ("version", .integer index.version), ("builder", index.builder.json),
    ("files", .strings (index.files.toList.map (·.text)))]
  have hfree : Json.isFloatFree (.object members) = true := by
    show (Json.areFloatFree ((index.files.toList.map (·.text)).map .string) && true) = true
    rw [Json.areFloatFree_strings]
    rfl
  have hparse : Json.Tree.parse index.text = some (Json.tree (.object members)) :=
    Json.Tree.parse_pretty hfree
  have hfields : (Json.tree (.object members)).fields? ["version", "builder", "files"] =
      some [Json.tree (.integer index.version), index.builder.json.tree,
        Json.tree (.strings (index.files.toList.map (·.text)))] :=
    Json.Tree.fields?_tree (by simp [members])
  unfold ofText?
  simp only [hparse, bind, Option.bind_some, hfields, Json.Tree.unsigned?_tree h,
    BuilderId.ofTree?_json, RelativePath.setOfTree?_strings]
  rfl

end EntryIndex

end Rebuild
