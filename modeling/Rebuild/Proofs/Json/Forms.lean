import Mathlib.Data.List.Dedup
import Rebuild.Proofs.Cache.Entry
import Rebuild.Proofs.Except
import Rebuild.Proofs.Json.Compact
import Rebuild.Proofs.Path.Normal

/-!
# JSON forms are read back

Identities, paths, source sets and indices of entries have JSON forms, and each value is read back
from the texts of its form. Other texts are read as well: a record may be spelled in other ways, and
it may list its files in any order, more than once, and with paths that are not normal. Records are
therefore read in two passes here: first the texts that list the files, and then the paths that
these texts spell.

* `Json.ReadBack`: a value is read from both spellings of its form.
* `RelativePath.setOfTexts?`: the second pass.
* `RelativePath.CollapseTo`: what it makes of the texts, by `setOfTexts?_eq_some_iff`.
* `SourceSet.ofTree?_eq`, `EntryIndex.ofText?_eq`: records are read in two passes.
* `forms_read_back`: what is written is read back, and what is read can be written.
-/
namespace Rebuild

/-! ## Both spellings of a form -/

namespace Json

/-- What a text that is one JSON value is read as. -/
def readText? {α : Type} (read : Tree → Option α) (s : String) : Option α :=
  (Tree.parse s).bind read

/-- A value is read from both spellings of its JSON form. -/
structure ReadBack {α : Type} (read : Tree → Option α) (v : Json) (a : α) : Prop where
  compact : readText? read v.compact = some a
  pretty : readText? read v.pretty = some a

theorem ReadBack.of_tree {α : Type} {read : Tree → Option α} {v : Json} {a : α}
    (hv : v.isFloatFree = true) (h : read v.tree = some a) : ReadBack read v a where
  compact := by rw [readText?, Tree.parse_compact hv, Option.bind_some, h]
  pretty := by rw [readText?, Tree.parse_pretty hv, Option.bind_some, h]

end Json

theorem BuilderId.readBack (id : BuilderId) : Json.ReadBack ofTree? id.json id :=
  .of_tree rfl (ofTree?_json id)

theorem RelativePath.readBack (p : RelativePath) : Json.ReadBack ofTree? (.string p.text) p :=
  .of_tree rfl (ofTree?_text p)

theorem SourceSet.ofTree?_json (set : SourceSet) : ofTree? set.json.tree = some set := by
  let members : List (String × Json) := [
    ("name", .string set.name), ("files", .strings (set.files.toList.map (·.text)))]
  have hfields : set.json.tree.fields? ["name", "files"] =
      some [Json.tree (.string set.name), Json.tree (.strings (set.files.toList.map (·.text)))] :=
    @Json.Tree.fields?_tree members (by simp [members])
  unfold ofTree?
  simp only [hfields, bind, Option.bind_some, Json.Tree.text?_tree,
    RelativePath.setOfTree?_strings]
  rfl

theorem SourceSet.readBack (set : SourceSet) : Json.ReadBack ofTree? set.json set := by
  have hfree : set.json.isFloatFree = true := by
    show (Json.areFloatFree ((set.files.toList.map (·.text)).map .string) && true) = true
    rw [Json.areFloatFree_strings]
    rfl
  exact .of_tree hfree (ofTree?_json set)

/-! ## The texts that list files -/

/-- Two steps for each member are two passes. -/
theorem mapM_bind {α β γ : Type} {f : α → Option β} {g : β → Option γ} : ∀ l : List α,
    l.mapM (fun a => (f a).bind g) = (l.mapM f).bind (·.mapM g)
  | [] => rfl
  | a :: l => by
    rw [List.mapM_cons, List.mapM_cons, mapM_bind l]
    cases f a with
    | none => rfl
    | some b => cases l.mapM f <;> cases h : g b <;> simp [h]

namespace RelativePath

variable {raws : List String} {files : SortedSet RelativePath} {p : RelativePath}

/-- Reads texts as a set of paths. -/
def setOfTexts? (raws : List String) : Option (SortedSet RelativePath) :=
  (raws.mapM parse).toOption.map .ofList

/-- Texts and the set that is made of them: each text is read as a path, and the set has what
remains of the texts, each once. -/
structure CollapseTo (raws : List String) (files : SortedSet RelativePath) : Prop where
  read : ∀ raw ∈ raws, ∃ p, parse raw = .ok p
  once : (files.toList.map (·.segments)).Perm (raws.map remaining).dedup

theorem ofTree?_eq (t : Json.Tree) : ofTree? t = t.text?.bind fun raw => (parse raw).toOption := by
  unfold ofTree?
  cases t.text? with
  | none => rfl
  | some raw =>
    dsimp only [bind, Option.bind]
    cases parse raw <;> rfl

theorem ofTree?_eq_some_iff {t : Json.Tree} :
    ofTree? t = some p ↔ ∃ raw, t.text? = some raw ∧ Spells raw p := by
  rw [ofTree?_eq, Option.bind_eq_some_iff]
  simp only [toOption_eq_some_iff, parse_eq_ok_iff]

theorem setOfTree?_eq (t : Json.Tree) :
    setOfTree? t = (t.items? Json.Tree.text?).bind setOfTexts? := by
  have hread : ofTree? = fun t => t.text?.bind fun raw => (parse raw).toOption := funext ofTree?_eq
  cases t with
  | array l =>
    show (l.mapM ofTree?).bind (fun paths => some (SortedSet.ofList paths)) =
      (l.mapM Json.Tree.text?).bind setOfTexts?
    rw [hread, mapM_bind, Option.bind_assoc]
    refine congrArg _ (funext fun raws => ?_)
    rw [mapM_toOption]
    exact Option.map_eq_bind.symm
  | _ => rfl

theorem mem_of_setOfTexts? (h : setOfTexts? raws = some files) (p : RelativePath) :
    p ∈ files ↔ ∃ raw ∈ raws, parse raw = .ok p := by
  obtain ⟨paths, hpaths, rfl⟩ := Option.map_eq_some_iff.1 h
  rw [SortedSet.mem_ofList, mem_of_mapM_ok (toOption_eq_some_iff.1 hpaths)]

theorem exists_setOfTexts?_iff :
    (∃ files, setOfTexts? raws = some files) ↔ ∀ raw ∈ raws, ∃ p, parse raw = .ok p := by
  rw [← exists_mapM_ok_iff]
  constructor
  · rintro ⟨files, h⟩
    obtain ⟨paths, hpaths, -⟩ := Option.map_eq_some_iff.1 h
    exact ⟨paths, toOption_eq_some_iff.1 hpaths⟩
  · rintro ⟨paths, hpaths⟩
    exact ⟨.ofList paths, by rw [setOfTexts?, hpaths]; rfl⟩

theorem mem_remaining_iff (h : ∀ raw ∈ raws, ∃ p, parse raw = .ok p) :
    p.segments ∈ raws.map remaining ↔ ∃ raw ∈ raws, parse raw = .ok p := by
  rw [List.mem_map]
  constructor
  · rintro ⟨raw, hraw, hsegments⟩
    obtain ⟨q, hq⟩ := h raw hraw
    obtain rfl : q = p := ext_segments ((segments_of_parse hq).trans hsegments)
    exact ⟨raw, hraw, hq⟩
  · rintro ⟨raw, hraw, hp⟩
    exact ⟨raw, hraw, (segments_of_parse hp).symm⟩

theorem mem_segments : p.segments ∈ files.toList.map (·.segments) ↔ p ∈ files := by
  rw [List.mem_map, ← SortedSet.mem_toList]
  constructor
  · rintro ⟨q, hq, hsegments⟩
    exact ext_segments hsegments ▸ hq
  · exact fun h => ⟨p, h, rfl⟩

theorem collapseTo_of_setOfTexts? (h : setOfTexts? raws = some files) : CollapseTo raws files := by
  have hread := exists_setOfTexts?_iff.1 ⟨files, h⟩
  have hnodup : (files.toList.map (·.segments)).Nodup :=
    List.Nodup.map (fun _ _ => ext_segments) files.pairwise_toList
  -- neither list repeats anything, so it is enough that they have the same members
  refine ⟨hread, (List.perm_ext_iff_of_nodup hnodup (List.nodup_dedup _)).2 fun segments => ?_⟩
  rw [List.mem_dedup]
  constructor
  · intro hmem
    obtain ⟨p, hp, rfl⟩ := List.mem_map.1 hmem
    exact (mem_remaining_iff hread).2 ((mem_of_setOfTexts? h p).1 ((SortedSet.mem_toList _ _).1 hp))
  · intro hmem
    obtain ⟨raw, hraw, rfl⟩ := List.mem_map.1 hmem
    obtain ⟨p, hp⟩ := hread raw hraw
    rw [← segments_of_parse hp, mem_segments]
    exact (mem_of_setOfTexts? h p).2 ⟨raw, hraw, hp⟩

theorem CollapseTo.setOfTexts?_eq (h : CollapseTo raws files) : setOfTexts? raws = some files := by
  obtain ⟨others, hothers⟩ := exists_setOfTexts?_iff.2 h.read
  have hsame : others = files := SortedSet.ext_mem fun p => by
    rw [mem_of_setOfTexts? hothers, ← mem_remaining_iff h.read, ← List.mem_dedup,
      ← h.once.mem_iff, mem_segments]
  rw [hothers, hsame]

/-- Texts are read as a set if each is read as a path, and the set has what remains of them. Texts
of which the same remains count as one, be it that a text is repeated or that a path is spelled in
several ways. -/
theorem setOfTexts?_eq_some_iff : setOfTexts? raws = some files ↔ CollapseTo raws files :=
  ⟨collapseTo_of_setOfTexts?, CollapseTo.setOfTexts?_eq⟩

/-- A record is made of what else it holds and of the set that its texts collapse to. -/
theorem bind_setOfTexts?_eq_some_iff {α β : Type} (make : α → SortedSet RelativePath → β)
    {spelling : Option (α × List String)} {b : β} :
    (spelling.bind fun m => (setOfTexts? m.2).map (make m.1)) = some b ↔
      ∃ a raws files, spelling = some (a, raws) ∧ CollapseTo raws files ∧ make a files = b := by
  rw [Option.bind_eq_some_iff]
  constructor
  · rintro ⟨⟨a, raws⟩, hspelling, h⟩
    obtain ⟨files, hfiles, hmake⟩ := Option.map_eq_some_iff.1 h
    exact ⟨a, raws, files, hspelling, setOfTexts?_eq_some_iff.1 hfiles, hmake⟩
  · rintro ⟨a, raws, files, hspelling, hfiles, hmake⟩
    exact ⟨(a, raws), hspelling,
      Option.map_eq_some_iff.2 ⟨files, setOfTexts?_eq_some_iff.2 hfiles, hmake⟩⟩

end RelativePath

/-! ## Records in two passes -/

/-- A source set before its paths are read: its name and the texts that list its files. -/
def SourceSet.spelling? (t : Json.Tree) : Option (String × List String) := do
  match ← t.fields? ["name", "files"] with
  | [name, files] => return (← name.text?, ← files.items? Json.Tree.text?)
  | _ => none

theorem SourceSet.ofTree?_eq (t : Json.Tree) : ofTree? t =
    (spelling? t).bind fun m => (RelativePath.setOfTexts? m.2).map (mk m.1) := by
  unfold ofTree? spelling?
  cases t.fields? ["name", "files"] with
  | none => rfl
  | some fields =>
    match fields with
    | [name, files] =>
      dsimp only [bind, Option.bind_some]
      rw [RelativePath.setOfTree?_eq]
      cases name.text? with
      | none => rfl
      | some name =>
        cases files.items? Json.Tree.text? with
        | none => rfl
        | some raws => exact Option.map_eq_bind.symm
    | [] | [_] | _ :: _ :: _ :: _ => rfl

/-- An index before its paths are read: its version and its builder, and the texts that list its
files. -/
def EntryIndex.spelling? (t : Json.Tree) : Option ((Nat × BuilderId) × List String) := do
  match ← t.fields? ["version", "builder", "files"] with
  | [version, builder, files] =>
    return ((← version.unsigned? (Nat.pow 2 32), ← BuilderId.ofTree? builder),
      ← files.items? Json.Tree.text?)
  | _ => none

theorem EntryIndex.ofText?_eq (s : String) : ofText? s =
    (Json.readText? spelling? s).bind fun m =>
      (RelativePath.setOfTexts? m.2).map (mk m.1.1 m.1.2) := by
  unfold ofText? Json.readText? spelling?
  cases Json.Tree.parse s with
  | none => rfl
  | some t =>
    dsimp only [bind, Option.bind_some]
    cases t.fields? ["version", "builder", "files"] with
    | none => rfl
    | some fields =>
      match fields with
      | [version, builder, files] =>
        dsimp only [Option.bind_some]
        rw [RelativePath.setOfTree?_eq]
        cases version.unsigned? (Nat.pow 2 32) with
        | none => rfl
        | some version =>
          cases BuilderId.ofTree? builder with
          | none => rfl
          | some builder =>
            cases files.items? Json.Tree.text? with
            | none => rfl
            | some raws => exact Option.map_eq_bind.symm
      | [] | [_] | [_, _] | _ :: _ :: _ :: _ :: _ => rfl

theorem SourceSet.readText?_eq_some_iff {s : String} {set : SourceSet} :
    Json.readText? ofTree? s = some set ↔ ∃ raws,
      Json.readText? spelling? s = some (set.name, raws) ∧
        RelativePath.CollapseTo raws set.files := by
  unfold Json.readText?
  rw [funext ofTree?_eq, ← Option.bind_assoc]
  refine (RelativePath.bind_setOfTexts?_eq_some_iff mk).trans ⟨?_, ?_⟩
  · rintro ⟨name, raws, files, hspelling, hfiles, rfl⟩
    exact ⟨raws, hspelling, hfiles⟩
  · rintro ⟨raws, hspelling, hfiles⟩
    exact ⟨set.name, raws, set.files, hspelling, hfiles, rfl⟩

theorem EntryIndex.ofText?_eq_some_iff {s : String} {index : EntryIndex} :
    ofText? s = some index ↔ ∃ raws,
      Json.readText? spelling? s = some ((index.version, index.builder), raws) ∧
        RelativePath.CollapseTo raws index.files := by
  rw [ofText?_eq]
  let make (owner : Nat × BuilderId) := mk owner.1 owner.2
  refine (RelativePath.bind_setOfTexts?_eq_some_iff make).trans ⟨?_, ?_⟩
  · rintro ⟨⟨version, builder⟩, raws, files, hspelling, hfiles, rfl⟩
    exact ⟨raws, hspelling, hfiles⟩
  · rintro ⟨raws, hspelling, hfiles⟩
    exact ⟨(index.version, index.builder), raws, index.files, hspelling, hfiles, rfl⟩

theorem Json.Tree.unsigned?_lt {t : Tree} {bound n : Nat} (h : t.unsigned? bound = some n) :
    n < bound := by
  unfold unsigned? at h
  split at h
  · dsimp only at h
    split at h
    next hlt =>
      cases h
      exact hlt
    next => cases h
  · cases h

/-- The version that is read fits into 32 bits, so that it can be written. -/
theorem EntryIndex.version_lt {s : String} {index : EntryIndex} (h : ofText? s = some index) :
    index.version < 2 ^ 32 := by
  obtain ⟨raws, hspelling, -⟩ := ofText?_eq_some_iff.1 h
  obtain ⟨t, -, hspelling⟩ := Option.bind_eq_some_iff.1 hspelling
  unfold spelling? at hspelling
  obtain ⟨fields, -, hspelling⟩ := Option.bind_eq_some_iff.1 hspelling
  split at hspelling
  · obtain ⟨version, hversion, hspelling⟩ := Option.bind_eq_some_iff.1 hspelling
    obtain ⟨builder, -, hspelling⟩ := Option.bind_eq_some_iff.1 hspelling
    obtain ⟨_, -, hspelling⟩ := Option.bind_eq_some_iff.1 hspelling
    cases hspelling
    exact Json.Tree.unsigned?_lt hversion
  · cases hspelling

theorem RelativePath.readText?_eq_some_iff {s : String} {p : RelativePath} :
    Json.readText? ofTree? s = some p ↔ ∃ raw,
      Json.readText? Json.Tree.text? s = some raw ∧ Spells raw p := by
  unfold Json.readText?
  cases Json.Tree.parse s with
  | none => simp
  | some t => exact ofTree?_eq_some_iff

/-! ## Main result -/

/-- What is written is read back, if the version of an index fits into 32 bits. What is read from
any text has normal paths only, and it can be written and is read back again. A text is read as a
path if it is a string that spells the path. A record is read if each of the texts that list its
files is read as a path; its files are then what remains of the texts, each once, however often and
in whatever spelling it is listed. -/
theorem forms_read_back :
    (∀ id : BuilderId, Json.ReadBack BuilderId.ofTree? id.json id) ∧
    (∀ p : RelativePath, Json.ReadBack RelativePath.ofTree? (.string p.text) p) ∧
    (∀ set : SourceSet, Json.ReadBack SourceSet.ofTree? set.json set) ∧
    (∀ index : EntryIndex, index.version < 2 ^ 32 →
      EntryIndex.ofText? index.text = some index) ∧
    (∀ s id, Json.readText? BuilderId.ofTree? s = some id →
      Json.ReadBack BuilderId.ofTree? id.json id) ∧
    (∀ s p, Json.readText? RelativePath.ofTree? s = some p →
      RelativePath.IsNormal p.text ∧ Json.ReadBack RelativePath.ofTree? (.string p.text) p) ∧
    (∀ s set, Json.readText? SourceSet.ofTree? s = some set →
      (∀ p ∈ set.files, RelativePath.IsNormal p.text) ∧
        Json.ReadBack SourceSet.ofTree? set.json set) ∧
    (∀ s index, EntryIndex.ofText? s = some index →
      (∀ p ∈ index.files, RelativePath.IsNormal p.text) ∧
        EntryIndex.ofText? index.text = some index) ∧
    (∀ s p, Json.readText? RelativePath.ofTree? s = some p ↔
      ∃ raw, Json.readText? Json.Tree.text? s = some raw ∧ RelativePath.Spells raw p) ∧
    (∀ s set, Json.readText? SourceSet.ofTree? s = some set ↔
      ∃ raws, Json.readText? SourceSet.spelling? s = some (set.name, raws) ∧
        RelativePath.CollapseTo raws set.files) ∧
    ∀ s index, EntryIndex.ofText? s = some index ↔
      ∃ raws, Json.readText? EntryIndex.spelling? s = some ((index.version, index.builder), raws) ∧
        RelativePath.CollapseTo raws index.files := by
  refine ⟨BuilderId.readBack, RelativePath.readBack, SourceSet.readBack,
    fun index => EntryIndex.ofText?_text, fun _ id _ => id.readBack,
    fun _ p _ => ⟨RelativePath.isNormal_text p, p.readBack⟩,
    fun _ set _ => ⟨fun p _ => RelativePath.isNormal_text p, set.readBack⟩,
    fun _ index h => ⟨fun p _ => RelativePath.isNormal_text p, ?_⟩,
    fun _ _ => RelativePath.readText?_eq_some_iff, fun _ _ => SourceSet.readText?_eq_some_iff,
    fun _ _ => EntryIndex.ofText?_eq_some_iff⟩
  exact EntryIndex.ofText?_text (EntryIndex.version_lt h)

/-- An identity that must be escaped. -/
def smiley : BuilderId := ⟨"😀", "\x00"⟩

/-- The identity as a list; its kind is given by a pair of surrogates. -/
def untidyId : String := "[\"\\ud83d\\ude00\", \"\\u0000\"]"

/-- One path in three spellings. -/
def threeSpellings : String := "[\"a//b\", \"./a/b\", \"a\\\\b\"]"

/-- A source set. What stands in the field that is passed over could not be read as text. -/
def untidySources : String :=
  "\x7b\"x\": [-1e9, \"\\ud800\"], \"files\": " ++ threeSpellings ++ ", \"name\": \"s\"\x7d"

/-- An index as a list. -/
def untidyIndex : String := "[1, " ++ untidyId ++ ", " ++ threeSpellings ++ "]"

/-- Untidy texts of each kind are read. The three spellings of a path collapse to that path, and
what was read is written and read back. -/
theorem forms_read_back_untidy : ∃ p : RelativePath, p.segments = ["a", "b"] ∧
    (Json.readText? BuilderId.ofTree? untidyId = some smiley ∧
      Json.ReadBack BuilderId.ofTree? smiley.json smiley) ∧
    (Json.readText? RelativePath.ofTree? "\"./a//b\"" = some p ∧
      RelativePath.IsNormal p.text ∧ Json.ReadBack RelativePath.ofTree? (.string p.text) p) ∧
    (Json.readText? SourceSet.ofTree? untidySources = some ⟨"s", .ofList [p]⟩ ∧
      Json.ReadBack SourceSet.ofTree? (SourceSet.json ⟨"s", .ofList [p]⟩) ⟨"s", .ofList [p]⟩) ∧
    EntryIndex.ofText? untidyIndex = some ⟨1, smiley, .ofList [p]⟩ ∧
      1 < 2 ^ 32 ∧
      EntryIndex.ofText? (EntryIndex.text ⟨1, smiley, .ofList [p]⟩) =
        some ⟨1, smiley, .ofList [p]⟩ := by
  obtain ⟨-, -, -, hwritten, hid, hpath, hset, -, hpaths, hsources, hindices⟩ := forms_read_back
  let p : RelativePath := ⟨["a", "b"], by decide, by decide, by decide⟩
  have hcollapse : RelativePath.CollapseTo ["a//b", "./a/b", "a\\b"] (.ofList [p]) := by
    refine ⟨?_, by decide⟩
    simp only [List.forall_mem_cons]
    exact ⟨⟨p, rfl⟩, ⟨p, rfl⟩, ⟨p, rfl⟩, by simp⟩
  have hreadId : Json.readText? BuilderId.ofTree? untidyId = some smiley := by decide +kernel
  have hreadPath : Json.readText? RelativePath.ofTree? "\"./a//b\"" = some p :=
    (hpaths _ p).2 ⟨"./a//b", by decide +kernel, RelativePath.spells_of_parse rfl⟩
  have hreadSet : Json.readText? SourceSet.ofTree? untidySources = some ⟨"s", .ofList [p]⟩ :=
    (hsources _ _).2 ⟨_, by decide +kernel, hcollapse⟩
  have hreadIndex : EntryIndex.ofText? untidyIndex = some ⟨1, smiley, .ofList [p]⟩ :=
    (hindices _ _).2 ⟨_, by decide +kernel, hcollapse⟩
  have hversion : 1 < 2 ^ 32 := by decide
  exact ⟨p, rfl, ⟨hreadId, hid _ _ hreadId⟩, ⟨hreadPath, hpath _ _ hreadPath⟩,
    ⟨hreadSet, (hset _ _ hreadSet).2⟩, hreadIndex, hversion, hwritten _ hversion⟩

end Rebuild
