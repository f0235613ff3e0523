import Rebuild.Directory.Local
import Rebuild.Directory.Memory
import Rebuild.Proofs.Disk.Member
import Rebuild.Proofs.Graph.Selection
import Rebuild.Proofs.Path.Rooted

/-!
# A directory on the disk as a map

The files below a directory on the disk are those of a map from paths to contents, if no
path in use is a directory of another one. The directories that lie there are on the way
to paths in use, so they are never in the way of a file, and a listing skips them.

* `RelativePath.Apart`, `LocalDirectory.Houses`: paths that can be files side by side.
* `LocalDirectory.Mirrors`: the files below a directory are those of a map.
* `Mirrors.found`: where paths in use lead.
* `Mirrors.written`, `Mirrors.removed`: what changes with a file.
* `Mirrors.list_eq`: listings.
-/
namespace Rebuild

namespace RelativePath

variable {p q : RelativePath}

/-- The names of a path on a disk. -/
def names (p : RelativePath) : List Bytes := p.segments.map Bytes.ofText

theorem under_names (p : RelativePath) (root : OsPath) : p.under root = OsPath.below root p.names :=
  under_eq p root

theorem names_ne_nil (p : RelativePath) : p.names ≠ [] := fun e =>
  p.nonempty (List.map_eq_nil_iff.1 e)

theorem isPrefix_of_names (h : p.names <+: q.names) : p.segments <+: q.segments :=
  (List.prefix_map_iff_of_injective fun _ _ => Bytes.ofText_injective).1 h

theorem names_injective (h : p.names = q.names) : p = q :=
  ext_segments ((List.map_inj_right fun _ _ => Bytes.ofText_injective).1 h)

theorem ofOs_names (p : RelativePath) : ofOs (OsPath.below [] p.names) = .ok p := by
  have hself : OsPath.components (p.under []) =
      OsPath.components [] ++ OsPath.components (OsPath.below [] p.names) := by
    rw [under_eq]
    rfl
  exact ofOs_of_components hself

theorem startsWith_iff : p.startsWith q = true ↔ q.names <+: p.names := by
  unfold startsWith
  rw [List.isPrefixOf_iff_prefix]
  exact ⟨fun h => h.map _, isPrefix_of_names⟩

end RelativePath

namespace LocalDirectory
open DiskM Disk

/-- Paths that a directory with this root can have as files side by side: the operating system
takes them, and none is a directory of another one. -/
structure Houses (root : OsPath) (used : RelativePath → Prop) : Prop where
  limits : ∀ p, used p → WithinLimits root p.names
  apart : ∀ p q, used p → used q → p.segments <+: q.segments → p = q

/-- Below a directory on the disk lie the files of a map, and directories on the way to paths in
use. -/
structure Mirrors (root : OsPath) (dir : Place) (used : RelativePath → Prop)
    (files : SortedMap RelativePath Bytes) (d : Disk) : Prop where
  footing : d.Footing root dir
  file_iff : ∀ names content, (∃ serial, d.at? (dir ++ names) = some (.file serial content)) ↔
    ∃ p, p.names = names ∧ files.get? p = some content
  inUse : ∀ p content, files.get? p = some content → used p
  way : ∀ names, names ≠ [] → d.at? (dir ++ names) = some .dir →
    ∃ p, used p ∧ names <+: p.names ∧ names ≠ p.names

variable {root : OsPath} {dir : Place} {used : RelativePath → Prop}
  {files : SortedMap RelativePath Bytes} {d d' : Disk} {p q : RelativePath} {content : Bytes}

theorem Houses.eq_of_names (h : Houses root used) (hp : used p) (hq : used q)
    (hstart : p.names <+: q.names) : p = q :=
  h.apart p q hp hq (RelativePath.isPrefix_of_names hstart)

theorem mirrors_empty (h : d.dirAt root = .ok dir)
    (hempty : ∀ place, dir.Inside place → d.at? place = none) : Mirrors root dir used ∅ d := by
  refine ⟨footing_of_empty h hempty, ?_, nofun, ?_⟩
  · intro names content
    refine ⟨fun ⟨serial, hfile⟩ => ?_, fun ⟨_, _, hnone⟩ => nomatch hnone⟩
    by_cases hne : names = []
    · rw [hne, List.append_nil, at?_of_dirAt h] at hfile
      cases hfile
    · cases (hempty _ (inside_append dir hne)).symm.trans hfile
  · intro names hne hdir
    cases (hempty _ (inside_append dir hne)).symm.trans hdir

namespace Mirrors

/-! ## Where paths lead -/

theorem at?_cases (h : Mirrors root dir used files d) (hhouses : Houses root used) (hp : used p) :
    (∃ content serial, files.get? p = some content ∧
      d.at? (dir ++ p.names) = some (.file serial content)) ∨
    (files.get? p = none ∧ d.at? (dir ++ p.names) = none) := by
  cases hitem : d.at? (dir ++ p.names) with
  | none =>
    refine .inr ⟨Option.eq_none_iff_forall_ne_some.2 fun content hsome => ?_, rfl⟩
    obtain ⟨serial, hfile⟩ := (h.file_iff _ content).2 ⟨p, rfl, hsome⟩
    cases hitem.symm.trans hfile
  | some item =>
    cases item with
    | dir =>
      obtain ⟨q, hq, hstart, hne⟩ := h.way _ p.names_ne_nil hitem
      exact absurd (congrArg RelativePath.names (hhouses.eq_of_names hp hq hstart)) hne
    | link target =>
      exact absurd hitem (h.footing.linkless _ target (inside_append dir p.names_ne_nil))
    | file serial content =>
      obtain ⟨q, hq, hsome⟩ := (h.file_iff _ content).1 ⟨serial, hitem⟩
      cases RelativePath.names_injective hq
      exact .inl ⟨content, serial, hsome, rfl⟩

/-- Only directories lie on the way to a path in use. -/
theorem clear (h : Mirrors root dir used files d) (hhouses : Houses root used) (hp : used p) :
    Clear dir p.names.dropLast d := by
  intro l hl
  by_cases hne : l = []
  · exact .inr (by rw [hne, List.append_nil, h.footing.at?_dir])
  cases hitem : d.at? (dir ++ l) with
  | none => exact .inl rfl
  | some item =>
    cases item with
    | dir => exact .inr rfl
    | link target => exact absurd hitem (h.footing.linkless _ target (inside_append dir hne))
    | file serial content =>
      obtain ⟨q, rfl, hsome⟩ := (h.file_iff l content).1 ⟨serial, hitem⟩
      have hstart := hl.trans (List.dropLast_prefix p.names)
      have heq := hhouses.eq_of_names (h.inUse q _ hsome) hp hstart
      exact absurd (congrArg RelativePath.names heq)
        (ne_of_isPrefix_dropLast p.names_ne_nil hl)

end Mirrors

/-- A path leads to the file that a map has there, or to nothing if it has none. -/
def Found (root : OsPath) (files : SortedMap RelativePath Bytes) (p : RelativePath) (d : Disk) :
    Prop :=
  ∀ follow,
    (∃ content serial place, files.get? p = some content ∧
      d.resolve follow (p.under root) = .ok ⟨place, some (.file serial content)⟩) ∨
    (files.get? p = none ∧ (d.resolve follow (p.under root) = .error .missing ∨
      ∃ place, d.resolve follow (p.under root) = .ok ⟨place, none⟩))

theorem Mirrors.found (h : Mirrors root dir used files d) (hhouses : Houses root used)
    (hp : used p) : Found root files p d := by
  intro follow
  have hresolve := h.footing.resolve_of_clear p.names_ne_nil (hhouses.limits p hp)
    (h.clear hhouses hp) follow
  rw [RelativePath.under_eq]
  rcases h.at?_cases hhouses hp with ⟨content, serial, hsome, hfile⟩ | ⟨hnone, hfree⟩
  · have hparent := h.footing.at?_dropLast p.names_ne_nil (by
      rw [hfile]
      exact Option.some_ne_none _)
    rw [if_pos hparent, hfile] at hresolve
    exact .inl ⟨content, serial, _, hsome, hresolve⟩
  · refine .inr ⟨hnone, ?_⟩
    split at hresolve
    · exact .inr ⟨_, by rw [hfree] at hresolve; exact hresolve⟩
    · exact .inl hresolve

/-! ## Answers -/

namespace Found

variable {name : String}

theorem read_eq (h : Found root files p d) :
    read ⟨root⟩ p d = MemoryDirectory.read ⟨name, files⟩ p := by
  unfold LocalDirectory.read MemoryDirectory.read Disk.read
  dsimp only
  rcases h true with ⟨content, serial, place, hsome, hresolve⟩ |
    ⟨hnone, hresolve | ⟨place, hresolve⟩⟩
  · rw [hresolve, hsome]
    rfl
  · rw [hresolve, hnone]
    rfl
  · rw [hresolve, hnone]
    rfl

theorem holds_eq (h : Found root files p d) :
    holds ⟨root⟩ p d = MemoryDirectory.holds ⟨name, files⟩ p := by
  unfold LocalDirectory.holds MemoryDirectory.holds Disk.isFile Disk.item? SortedMap.contains
  dsimp only
  rcases h true with ⟨content, serial, place, hsome, hresolve⟩ |
    ⟨hnone, hresolve | ⟨place, hresolve⟩⟩
  · rw [hresolve, hsome]
    rfl
  · rw [hresolve, hnone]
    rfl
  · rw [hresolve, hnone]
    rfl

theorem meets_delete_missing (h : Found root files p d) (hnone : files.get? p = none) :
    (delete ⟨root⟩ p).Meets d fun result d' => result = .error (.notFound p) ∧ d' = d := by
  have hremove : (removeFile (p.under root)).Meets d fun result d' =>
      result = .error .missing ∧ d' = d := by
    rcases h false with ⟨content, serial, place, hsome, -⟩ | ⟨-, hresolve⟩
    · cases hnone.symm.trans hsome
    refine .ask_bind (fun found hfound => ?_) fun e he => ?_
    · rcases hresolve with herror | ⟨place, hfree⟩
      · cases herror.symm.trans hfound
      · cases hfree.symm.trans hfound
        exact meets_throw ⟨rfl, rfl⟩
    · rcases hresolve with herror | ⟨place, hfree⟩
      · cases herror.symm.trans he
        exact ⟨rfl, rfl⟩
      · cases hfree.symm.trans he
  exact hremove.mapError.mono fun _ _ ⟨_, heq, hmissing, hsame⟩ =>
    ⟨by rw [heq, hmissing]; rfl, hsame⟩

end Found

/-! ## Changes -/

theorem Mirrors.written (h : Mirrors root dir used files d) (hhouses : Houses root used)
    (hp : used p) (hfooting : d'.Footing root dir) (hwritten : Written dir p.names content d d') :
    Mirrors root dir used (files.insert p content) d' := by
  have hapart {q : RelativePath} {l : List Bytes} (hq : used q) (hl : l <+: p.names)
      (hnames : q.names = l) : q = p := hhouses.eq_of_names hq hp (hnames ▸ hl)
  refine ⟨hfooting, ?_, ?_, ?_⟩
  · intro names found
    rcases hwritten.at?_cases names with ⟨hl, hdir⟩ | ⟨rfl, serial, hfile⟩ | ⟨hl, hsame⟩
    · -- a directory on the way to the new file is no file of the map
      refine ⟨fun ⟨_, hfile⟩ => (nomatch hdir.symm.trans hfile), fun ⟨q, hnames, hsome⟩ => ?_⟩
      have hne := ne_of_isPrefix_dropLast p.names_ne_nil hl
      have hother : q ≠ p := fun e => hne (by rw [← hnames, e])
      rw [SortedMap.get?_insert_of_ne hother] at hsome
      exact absurd (hapart (h.inUse q _ hsome) (hl.trans (List.dropLast_prefix _)) hnames) hother
    · constructor
      · intro ⟨_, hfound⟩
        cases hfile.symm.trans hfound
        exact ⟨p, rfl, SortedMap.get?_insert_self _ _ _⟩
      · intro ⟨q, hnames, hsome⟩
        cases RelativePath.names_injective hnames
        rw [SortedMap.get?_insert_self] at hsome
        cases hsome
        exact ⟨serial, hfile⟩
    · rw [hsame, h.file_iff]
      refine exists_congr fun q => and_congr_right fun hnames => ?_
      have hother : q ≠ p := fun e => hl (by rw [← hnames, e])
      rw [SortedMap.get?_insert_of_ne hother]
  · intro q found hsome
    by_cases hother : q = p
    · exact hother ▸ hp
    · rw [SortedMap.get?_insert_of_ne hother] at hsome
      exact h.inUse q found hsome
  · intro names hne hdir
    rcases hwritten.at?_cases names with ⟨hl, -⟩ | ⟨rfl, serial, hfile⟩ | ⟨-, hsame⟩
    · exact ⟨p, hp, hl.trans (List.dropLast_prefix _), ne_of_isPrefix_dropLast p.names_ne_nil hl⟩
    · cases hfile.symm.trans hdir
    · exact h.way names hne (hsame.symm.trans hdir)

theorem Mirrors.removed (h : Mirrors root dir used files d) (hhouses : Houses root used)
    (hsome : files.get? p = some content) (hpruned : Pruned (dir ++ p.names) d d') :
    Mirrors root dir used (files.erase p) d' := by
  have hp := h.inUse p content hsome
  refine ⟨h.footing.pruned p.names_ne_nil hpruned, ?_, ?_, ?_⟩
  · intro names found
    simp only [hpruned (dir ++ names), List.prefix_append_right_inj]
    split
    next hl =>
      refine ⟨fun ⟨_, hnone⟩ => (nomatch hnone), fun ⟨q, hnames, hfound⟩ => ?_⟩
      rw [SortedMap.get?_erase] at hfound
      split at hfound
      · cases hfound
      next hother =>
        have heq := hhouses.eq_of_names hp (h.inUse q _ hfound) (hnames ▸ hl)
        exact absurd (by rw [heq]; exact Std.ReflOrd.compare_self) hother
    next hl =>
      rw [h.file_iff]
      refine exists_congr fun q => and_congr_right fun hnames => ?_
      have hother : q ≠ p := fun e => hl (by rw [← hnames, e])
      rw [SortedMap.get?_erase, if_neg fun e => hother (Std.LawfulEqOrd.eq_of_compare e)]
  · intro q found hfound
    rw [SortedMap.get?_erase] at hfound
    split at hfound
    · cases hfound
    · exact h.inUse q found hfound
  · intro names hne hdir
    rw [hpruned] at hdir
    split at hdir
    · cases hdir
    · exact h.way names hne hdir

theorem Mirrors.meets_delete (h : Mirrors root dir used files d) (hhouses : Houses root used)
    (hsome : files.get? p = some content) :
    (delete ⟨root⟩ p).Meets d fun result d' =>
      result = .ok () ∧ Mirrors root dir used (files.erase p) d' := by
  have hp := h.inUse p content hsome
  have hok : (removeFile (p.under root)).Meets d fun result _ => result = .ok () := by
    rcases h.found hhouses hp false with ⟨_, _, _, -, hresolve⟩ | ⟨hnone, -⟩
    · refine .ask_bind (fun found hfound => ?_) fun e he => by cases hresolve.symm.trans he
      cases hresolve.symm.trans hfound
      exact meets_change rfl
    · cases hnone.symm.trans hsome
  have hremove := meets_removeFile h.footing p.isName_segments p.names_ne_nil
  rw [← RelativePath.under_eq] at hremove
  refine (hok.and hremove).mapError.mono ?_
  rintro _ d' ⟨_, rfl, rfl, hended⟩
  rcases hended with ⟨⟨_, herror⟩, -⟩ | ⟨-, hpruned⟩
  · cases herror
  · exact ⟨rfl, h.removed hhouses hsome hpruned⟩

/-! ## Listings -/

theorem mem_fileNames {place : Place} {names : List Bytes} :
    names ∈ fileNames d place ↔
      names ≠ [] ∧ ∃ serial content, d.at? (place ++ names) = some (.file serial content) := by
  unfold fileNames
  rw [List.mem_filterMap]
  constructor
  · intro ⟨⟨q, item⟩, hmem, heq⟩
    obtain ⟨hne, hitem⟩ := mem_below.1 hmem
    cases item with
    | file serial content =>
      cases heq
      exact ⟨hne, serial, content, hitem⟩
    | dir => cases heq
    | link target => cases heq
  · intro ⟨hne, serial, content, hfile⟩
    exact ⟨(names, .file serial content), mem_below.2 ⟨hne, hfile⟩, rfl⟩

/-- A path of the map that a listing asks for: it goes on after the names of the directory. -/
theorem listed_iff (below : Option RelativePath) :
    (below.all fun b => p.startsWith b && p ≠ b) = true ↔
      ∃ names, names ≠ [] ∧ p.names = below.elim [] (·.names) ++ names := by
  cases below with
  | none =>
    show (true = true) ↔ _
    exact ⟨fun _ => ⟨p.names, p.names_ne_nil, rfl⟩, fun _ => rfl⟩
  | some b =>
    show (p.startsWith b && decide (p ≠ b)) = true ↔
      ∃ names, names ≠ [] ∧ p.names = b.names ++ names
    rw [Bool.and_eq_true, RelativePath.startsWith_iff, decide_eq_true_eq]
    constructor
    · rintro ⟨⟨names, hnames⟩, hother⟩
      refine ⟨names, fun hnil => hother (RelativePath.names_injective ?_), hnames.symm⟩
      rw [← hnames, hnil, List.append_nil]
    · rintro ⟨names, hne, hnames⟩
      refine ⟨⟨names, hnames.symm⟩, fun heq => hne ?_⟩
      rw [heq] at hnames
      exact List.append_right_eq_self.1 hnames.symm

theorem toList_eq_of_mem {κ : Type} [Ord κ] [Std.TransOrd κ] [Std.LawfulEqOrd κ]
    {s : SortedSet κ} {l : List κ} (hl : l.Pairwise fun a b => compare a b = .lt)
    (h : ∀ k, k ∈ s ↔ k ∈ l) : s.toList = l := by
  have hascending : Assoc.Ascending (l.map fun k => (k, ())) := List.pairwise_map.2 hl
  have htoList : SortedSet.toList ⟨⟨l.map fun k => (k, ()), hascending⟩⟩ = l := by
    show (l.map fun k => (k, ())).map Prod.fst = l
    rw [List.map_map]
    exact List.map_id l
  have heq : s = ⟨⟨l.map fun k => (k, ()), hascending⟩⟩ := SortedSet.ext_mem fun k => by
    rw [h, ← SortedSet.mem_toList, htoList]
  rw [heq, htoList]

namespace Mirrors

theorem ofOs_of_mem (h : Mirrors root dir used files d) {start names : List Bytes}
    (hnames : names ∈ fileNames d (dir ++ start)) :
    ∃ p content, p.names = start ++ names ∧ files.get? p = some content ∧
      RelativePath.ofOs (names.foldl OsPath.push (OsPath.below [] start)) = .ok p := by
  obtain ⟨-, serial, content, hfile⟩ := mem_fileNames.1 hnames
  rw [List.append_assoc] at hfile
  obtain ⟨p, hp, hsome⟩ := (h.file_iff _ content).1 ⟨serial, hfile⟩
  refine ⟨p, content, hp, hsome, ?_⟩
  show RelativePath.ofOs (OsPath.below (OsPath.below [] start) names) = _
  rw [OsPath.below_below, ← hp, RelativePath.ofOs_names]

theorem mem_iff_ofOs (h : Mirrors root dir used files d) (below : Option RelativePath) :
    p ∈ files.keys.filter (fun p => below.all fun b => p.startsWith b && p ≠ b) ↔
      ∃ names ∈ fileNames d (dir ++ below.elim [] (·.names)), RelativePath.ofOs
        (names.foldl OsPath.push (OsPath.below [] (below.elim [] (·.names)))) = .ok p := by
  rw [List.mem_filter, SortedMap.mem_keys, listed_iff]
  unfold SortedMap.contains
  rw [Option.isSome_iff_exists]
  generalize below.elim [] (·.names) = start
  constructor
  · rintro ⟨⟨content, hsome⟩, names, hne, hnames⟩
    obtain ⟨serial, hfile⟩ := (h.file_iff _ content).2 ⟨p, rfl, hsome⟩
    rw [hnames, ← List.append_assoc] at hfile
    have hmem := mem_fileNames.2 ⟨hne, serial, content, hfile⟩
    obtain ⟨q, _, hq, -, hof⟩ := h.ofOs_of_mem hmem
    exact ⟨names, hmem, by rw [hof, RelativePath.names_injective (hq.trans hnames.symm)]⟩
  · rintro ⟨names, hnames, hof⟩
    obtain ⟨q, content, hq, hsome, hof'⟩ := h.ofOs_of_mem hnames
    cases hof.symm.trans hof'
    exact ⟨⟨content, hsome⟩, names, (mem_fileNames.1 hnames).1, hq⟩

theorem dirAt_below (h : Mirrors root dir used files d) (hhouses : Houses root used)
    (hsome : files.get? p = some content) {b : RelativePath} (hbelow : b.names <+: p.names)
    (hother : b.names ≠ p.names) : d.dirAt (b.under root) = .ok (dir ++ b.names) := by
  obtain ⟨names, hnames⟩ := hbelow
  obtain ⟨serial, hfile⟩ := (h.file_iff _ content).2 ⟨p, rfl, hsome⟩
  obtain ⟨name, rest, rfl⟩ : ∃ name rest, names = name :: rest :=
    List.exists_cons_of_ne_nil fun e => hother (by rw [← hnames, e, List.append_nil])
  have hdir : d.at? (dir ++ b.names) = some .dir := by
    have hsome : d.at? (dir ++ (b.names ++ name :: rest)) ≠ none := by
      rw [hnames, hfile]
      exact Option.some_ne_none _
    exact h.footing.at?_of_below hsome
  have hlimits := (hhouses.limits p (h.inUse p _ hsome)).of_isPrefix ⟨_, hnames⟩
  have hparent := h.footing.at?_dropLast b.names_ne_nil (by
    rw [hdir]
    exact Option.some_ne_none _)
  rw [RelativePath.under_names]
  unfold dirAt
  rw [h.footing.resolve_eq hlimits b.names_ne_nil hparent true, hdir]
  rfl

/-- A listing gives the paths of the map that lie below, in order. -/
theorem list_eq (h : Mirrors root dir used files d) (hhouses : Houses root used)
    (below : Option RelativePath) (name : String) :
    list ⟨root⟩ below d = .ok (MemoryDirectory.list ⟨name, files⟩ below) := by
  have hplace {place : Place} (hdir : d.dirAt (below.elim root (·.under root)) = .ok place) :
      place = dir ++ below.elim [] (·.names) := by
    cases below with
    | none =>
      cases h.footing.dirAt_eq.symm.trans hdir
      exact (List.append_nil dir).symm
    | some b =>
      rw [Option.elim_some, RelativePath.under_eq] at hdir
      exact (h.footing.dirAt_below b.isName_segments b.names_ne_nil hdir).1
  have hpath : below.elim [] (·.under []) = OsPath.below [] (below.elim [] (·.names)) := by
    cases below with
    | none => rfl
    | some b => exact b.under_eq []
  unfold LocalDirectory.list MemoryDirectory.list
  dsimp only
  rw [hpath]
  split
  next e hnowhere =>
    -- what is no directory has no file of the map below it
    refine congrArg Except.ok (List.eq_nil_iff_forall_not_mem.2 fun p hp => ?_).symm
    rw [List.mem_filter, SortedMap.mem_keys, listed_iff] at hp
    obtain ⟨hsome, names, hne, hnames⟩ := hp
    obtain ⟨content, hsome⟩ := Option.isSome_iff_exists.1 hsome
    cases below with
    | none => cases h.footing.dirAt_eq.symm.trans hnowhere
    | some b =>
      have hother : b.names ≠ p.names := fun e => hne (by
        rw [← e] at hnames
        exact List.append_right_eq_self.1 hnames.symm)
      cases (h.dirAt_below hhouses hsome ⟨names, hnames.symm⟩ hother).symm.trans hnowhere
  next place hdir =>
    rw [hplace hdir]
    have hmem := fun p => @mem_iff_ofOs root dir used files d p h below
    generalize below.elim [] (·.names) = start at hmem ⊢
    obtain ⟨paths, hpaths⟩ := @exists_mapM_ok _ _ _ (fun names =>
      (RelativePath.ofOs (names.foldl OsPath.push (OsPath.below [] start))).mapError
        FsError.invalidPath) (fileNames d (dir ++ start)) fun names hnames => by
      obtain ⟨p, _, -, -, hof⟩ := h.ofOs_of_mem hnames
      exact ⟨p, mapError_ok _ hof⟩
    rw [bind_ok hpaths]
    refine congrArg Except.ok (toList_eq_of_mem ?_ fun p => ?_)
    · have hkeys : files.keys.Pairwise fun a b => compare a b = .lt :=
        List.pairwise_map.2 files.ascending
      exact hkeys.filter _
    · rw [SortedSet.mem_ofList, mem_of_mapM_ok hpaths, hmem p]
      exact exists_congr fun names => and_congr_right fun _ => ⟨ok_of_mapError, mapError_ok _⟩

end Mirrors

end LocalDirectory

end Rebuild
