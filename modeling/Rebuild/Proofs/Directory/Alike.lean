import Rebuild.Proofs.Cache.OnDisk
import Rebuild.Proofs.Directory.Mirror
import Rebuild.Proofs.Disk.Unmade
import Rebuild.Proofs.Incremental.Recompute

/-!
# Directories that answer alike

A directory on the disk answers every sequence of calls as one in memory does, if it is
empty at first or missing, and nothing else touches it. The paths in use have to be ones
that can be files side by side. Where a file is written, there has to be room for the
path of the temporary file, too, which may be longer than that of the file.

* `Directory.Operation`, `Directory.Reply`, `Directory.replies`: what is asked of a directory,
  and what it answers.
* `LocalDirectory.Keeps`: the files of a map are below a root, which may still be missing.
* `Keeps.meets_write`, `Keeps.respond_eq`: what one call does.
* `LocalDirectory.replies_eq_memory`: all calls.
-/
namespace Rebuild

namespace Directory

variable {σ : Type}

/-- What is asked of a directory. -/
inductive Operation where
  | write (p : RelativePath) (content : Bytes)
  | delete (p : RelativePath)
  | read (p : RelativePath)
  | holds (p : RelativePath)
  | list (below : Option RelativePath)

/-- The path of the file that a call is about. -/
def Operation.file? : Operation → Option RelativePath
  | .write p _ | .delete p | .read p | .holds p => some p
  | .list _ => none

/-- What a directory answers. -/
inductive Reply where
  | ended (result : Except FsError Unit)
  | content (result : Except FsError Bytes)
  | found (found : Bool)
  | files (result : Except FsError (List RelativePath))
  deriving DecidableEq

/-- How a directory answers a call. -/
def respond (dir : Directory σ) : Operation → σ → Reply × σ
  | .write p content, s => (.ended (dir.write p content s).1, (dir.write p content s).2)
  | .delete p, s => (.ended (dir.delete p s).1, (dir.delete p s).2)
  | .read p, s => (.content (dir.read p s), s)
  | .holds p, s => (.found (dir.holds p s), s)
  | .list below, s => (.files (dir.list below s), s)

/-- The answers to calls, one after the other. -/
def replies (dir : Directory σ) : List Operation → σ → List Reply
  | [], _ => []
  | operation :: rest, s =>
    (dir.respond operation s).1 :: dir.replies rest (dir.respond operation s).2

end Directory

namespace MemoryDirectory

variable {name : String} {files : SortedMap RelativePath Bytes} {p : RelativePath} {content : Bytes}

theorem delete_of_some (h : files.get? p = some content) :
    delete ⟨name, files⟩ p = (.ok (), ⟨name, files.erase p⟩) := by
  unfold delete SortedMap.contains
  rw [h]
  rfl

theorem delete_of_none (h : files.get? p = none) :
    delete ⟨name, files⟩ p = (.error (.notFound p), ⟨name, files⟩) := by
  unfold delete SortedMap.contains
  rw [h]
  rfl

end MemoryDirectory

namespace LocalDirectory
open DiskM Disk Directory MemoryDirectory

/-- The files of a map are kept below a root. If there are none, the directory may be missing. -/
def Keeps (root : OsPath) (dir : Place) (used : RelativePath → Prop)
    (files : SortedMap RelativePath Bytes) (d : Disk) : Prop :=
  Mirrors root dir used files d ∨ files = ∅ ∧ Unmade root dir d

/-- A directory that is empty, or one that is missing and can be made. -/
def Blank (root : OsPath) (d : Disk) : Prop :=
  ∃ dir, (d.dirAt root = .ok dir ∧ ∀ place, dir.Inside place → d.at? place = none) ∨
    Unmade root dir d

/-- There is room for the path of the temporary file beside a file below an absolute root. -/
def Roomy (root : OsPath) (p : RelativePath) : Prop :=
  (parentOf ⟨root⟩ p).length + 1 + temporaryLength < pathLimit

variable {root : OsPath} {dir : Place} {used : RelativePath → Prop}
  {files : SortedMap RelativePath Bytes} {d d' : Disk} {p : RelativePath} {content : Bytes}

theorem Blank.keeps (h : Blank root d) (used : RelativePath → Prop) :
    ∃ dir, Keeps root dir used ∅ d := by
  obtain ⟨dir, ⟨hroot, hempty⟩ | hunmade⟩ := h
  · exact ⟨dir, .inl (mirrors_empty hroot hempty)⟩
  · exact ⟨dir, .inr ⟨rfl, hunmade⟩⟩

theorem parentOf_cases (p : RelativePath) :
    (p.names.dropLast = [] ∧ parentOf ⟨root⟩ p = root.trimStays) ∨
      (p.names.dropLast ≠ [] ∧ parentOf ⟨root⟩ p = OsPath.below root p.names.dropLast) := by
  unfold RelativePath.names parentOf RelativePath.parent?
  rw [← List.map_dropLast]
  by_cases h : p.segments.dropLast = []
  · exact .inl ⟨by rw [h]; rfl, by rw [dif_pos h]; rfl⟩
  · refine .inr ⟨fun e => h (List.map_eq_nil_iff.1 e), ?_⟩
    rw [dif_neg h]
    exact RelativePath.under_eq _ _

namespace Keeps

/-! ## Reading -/

theorem found (h : Keeps root dir used files d) (hhouses : Houses root used) (hp : used p) :
    Found root files p d := by
  rcases h with hmirrors | ⟨rfl, hunmade⟩
  · exact hmirrors.found hhouses hp
  · refine fun follow => .inr ⟨rfl, .inl ?_⟩
    rw [RelativePath.under_names]
    exact hunmade.resolve_eq p.names_ne_nil (hhouses.limits p hp) follow

theorem list_eq (h : Keeps root dir used files d) (hhouses : Houses root used)
    (below : Option RelativePath) (name : String) :
    list ⟨root⟩ below d = .ok (MemoryDirectory.list ⟨name, files⟩ below) := by
  rcases h with hmirrors | ⟨rfl, hunmade⟩
  · exact hmirrors.list_eq hhouses below name
  · have hnowhere : ∃ e, d.dirAt (below.elim root (·.under root)) = .error e := by
      cases below with
      | none => exact ⟨_, hunmade.missing⟩
      | some b =>
        rw [Option.elim_some, RelativePath.under_names]
        exact hunmade.dirAt_eq b.names_ne_nil b.isName_segments
    obtain ⟨e, hnowhere⟩ := hnowhere
    unfold LocalDirectory.list
    rw [hnowhere]
    rfl

/-! ## Writing -/

theorem meets_parent (h : Keeps root dir used files d) (hhouses : Houses root used)
    (hp : used p) : (makeDirs (parentOf ⟨root⟩ p)).Meets d fun result d₁ =>
      result = .ok () ∧ d₁.dirAt (parentOf ⟨root⟩ p) = .ok (dir ++ p.names.dropLast) ∧
        ∃ d₀, Mirrors root dir used files d₀ ∧ Laid dir p.names.dropLast d₀ d₁ := by
  have hlimits := (hhouses.limits p hp).of_isPrefix (List.dropLast_prefix p.names)
  have hstart {d : Disk} (hroot : d.dirAt root = .ok dir) : Laid dir [] d d :=
    ⟨fun l hl => by rw [List.prefix_nil.1 hl, List.append_nil, at?_of_dirAt hroot], fun _ _ => rfl⟩
  rcases @parentOf_cases root p with ⟨hnil, hparent⟩ | ⟨hne, hparent⟩
  · rw [hparent, hnil, List.append_nil]
    rcases h with hmirrors | ⟨rfl, hunmade⟩
    · have hroot := hmirrors.footing.dirAt_eq
      refine (meets_makeDirs_there (dirAt_trimStays hroot)).mono fun _ d₁ ⟨hok, heq⟩ => ?_
      subst heq
      exact ⟨hok, dirAt_trimStays hroot, d₁, hmirrors, hstart hroot⟩
    · exact hunmade.makes.mono fun _ d₁ ⟨hok, hroot, hempty⟩ =>
        ⟨hok, dirAt_trimStays hroot, d₁, mirrors_empty hroot hempty, hstart hroot⟩
  · rw [hparent]
    rcases h with hmirrors | ⟨rfl, hunmade⟩
    · refine (meets_makeDirs_ok hmirrors.footing hne hlimits (hmirrors.clear hhouses hp)).mono
        fun _ d₁ ⟨hok, hlaid⟩ => ?_
      exact ⟨hok, hlaid.dirAt_eq hmirrors.footing hne hlimits, d, hmirrors, hlaid⟩
    · refine (hunmade.meets_makeDirs hne hlimits).mono
        fun _ d₁ ⟨hok, d₀, hroot, hempty, hlaid⟩ => ?_
      exact ⟨hok, hlaid.dirAt_eq (footing_of_empty hroot hempty) hne hlimits, d₀,
        mirrors_empty hroot hempty, hlaid⟩

theorem meets_write (h : Keeps root dir used files d) (hhouses : Houses root used) (hp : used p)
    (hroomy : Roomy root p) (content : Bytes) :
    (write ⟨root⟩ p content).Meets d fun result d' =>
      result = .ok () ∧ Mirrors root dir used (files.insert p content) d' := by
  have hlimits := hhouses.limits p hp
  have hmake : (makeDirs (parentOf ⟨root⟩ p)).Meets d fun result d₁ => result = .ok () ∧
      Ready root (parentOf ⟨root⟩ p) dir p.names d₁ ∧
        ∃ d₀, Mirrors root dir used files d₀ ∧ Laid dir p.names.dropLast d₀ d₁ := by
    refine (h.meets_parent hhouses hp).mono fun _ d₁ ⟨hok, hparent, d₀, h₀, hlaid⟩ =>
      ⟨hok, hlaid.ready h₀.footing p.names_ne_nil hlimits.plain hparent ?_, d₀, h₀, hlaid⟩
    rcases h₀.at?_cases hhouses hp with ⟨_, _, -, hfile⟩ | ⟨-, hfree⟩
    · rw [hfile]
      nofun
    · rw [hfree]
      nofun
  have hreplace := meets_replaceFile_ready p.names_ne_nil hlimits hroomy hmake content
  rw [← RelativePath.under_names] at hreplace
  refine hreplace.mapError.mono ?_
  rintro _ d₂ ⟨_, rfl, rfl, d₁, ⟨d₀, h₀, hlaid⟩, hplaced⟩
  exact ⟨rfl, h₀.written hhouses hp hplaced.footing (hlaid.written p.names_ne_nil hplaced)⟩

/-! ## Calls -/

/-- A call is answered as by a directory in memory, and the files stay those of that one. -/
theorem respond_eq (h : Keeps root dir used files d) (hhouses : Houses root used)
    {operation : Operation} (hused : ∀ p, operation.file? = some p → used p)
    (hroomy : ∀ p content, operation = .write p content → Roomy root p) (name label : String) :
    ∃ reply files',
      (MemoryDirectory.directory .whole label).respond operation ⟨name, files⟩ =
        (reply, ⟨name, files'⟩) ∧
      ((directory .whole ⟨root⟩).respond operation d).1 = reply ∧
      Keeps root dir used files' ((directory .whole ⟨root⟩).respond operation d).2 := by
  cases operation with
  | write p content =>
    obtain ⟨hok, hmirrors⟩ :=
      (h.meets_write hhouses (hused p rfl) (hroomy p content rfl) content).run
    exact ⟨_, _, rfl, congrArg Reply.ended hok, .inl hmirrors⟩
  | delete p =>
    have hfound := h.found hhouses (hused p rfl)
    cases hsome : files.get? p with
    | none =>
      obtain ⟨herror, hsame⟩ := (hfound.meets_delete_missing hsome).run
      refine ⟨_, _, congrArg (fun ended => (Reply.ended ended.1, ended.2))
        (delete_of_none hsome), congrArg Reply.ended herror, ?_⟩
      exact (congrArg (Keeps root dir used files) hsame).mpr h
    | some content =>
      rcases h with hmirrors | ⟨rfl, -⟩
      · obtain ⟨hok, hmirrors'⟩ := (hmirrors.meets_delete hhouses hsome).run
        exact ⟨_, _, congrArg (fun ended => (Reply.ended ended.1, ended.2))
          (delete_of_some hsome), congrArg Reply.ended hok, .inl hmirrors'⟩
      · cases hsome
  | read p =>
    exact ⟨_, _, rfl, congrArg Reply.content (h.found hhouses (hused p rfl)).read_eq, h⟩
  | holds p =>
    exact ⟨_, _, rfl, congrArg Reply.found (h.found hhouses (hused p rfl)).holds_eq, h⟩
  | list below => exact ⟨_, _, rfl, congrArg Reply.files (h.list_eq hhouses below name), h⟩

theorem replies_eq (hhouses : Houses root used) (name label : String) :
    ∀ {operations : List Operation} {files : SortedMap RelativePath Bytes} {d : Disk},
    Keeps root dir used files d → (∀ p ∈ operations.filterMap Operation.file?, used p) →
    (∀ p content, .write p content ∈ operations → Roomy root p) →
    (directory .whole ⟨root⟩).replies operations d =
      (MemoryDirectory.directory .whole label).replies operations ⟨name, files⟩
  | [], _, _, _, _, _ => rfl
  | operation :: rest, files, d, h, hused, hroomy => by
    obtain ⟨reply, files', hmemory, hlocal, h'⟩ := h.respond_eq hhouses
      (fun p (hp : operation.file? = some p) =>
        hused p (List.mem_filterMap.2 ⟨operation, List.mem_cons_self, hp⟩))
      (fun p content e => hroomy p content (e ▸ List.mem_cons_self)) name label
    have hrest := replies_eq hhouses name label h'
      (fun p hp => hused p (by
        obtain ⟨other, hother, hp⟩ := List.mem_filterMap.1 hp
        exact List.mem_filterMap.2 ⟨other, List.mem_cons_of_mem _ hother, hp⟩))
      fun p content hmem => hroomy p content (List.mem_cons_of_mem _ hmem)
    rw [Directory.replies, Directory.replies, hmemory, hlocal, hrest]

end Keeps

/-- A directory on the disk, empty at first or missing, answers as one in memory. -/
theorem replies_eq_memory (hblank : Blank root d) {operations : List Operation}
    (hhouses : Houses root (· ∈ operations.filterMap Operation.file?))
    (hroomy : ∀ p content, .write p content ∈ operations → Roomy root p) (name label : String) :
    (directory .whole ⟨root⟩).replies operations d =
      (MemoryDirectory.directory .whole label).replies operations ⟨name, ∅⟩ := by
  obtain ⟨dir, hkeeps⟩ := hblank.keeps (· ∈ operations.filterMap Operation.file?)
  exact hkeeps.replies_eq hhouses name label (fun _ hp => hp) hroomy

/-- On a disk with nothing on it, a directory right below the root can be made. -/
theorem blank_of_name {name : Bytes} (hname : Accepted name)
    (hfits : (OsPath.below [OsPath.separator] [name]).length < pathLimit) :
    Blank (OsPath.below [OsPath.separator] [name]) {} := by
  have hnone {place : Place} (hplace : place ≠ []) : ({} : Disk).at? place = none := if_neg hplace
  have hroot : ({} : Disk).dirAt [OsPath.separator] = .ok [] := by
    have hwalk : ({} : Disk).walk true linkLimit [] (OsPath.steps [OsPath.separator]) = _ :=
      walk_stays rfl linkLimit 2
    unfold dirAt resolve
    rw [if_neg (by decide), if_neg (by decide), if_neg (by decide), hwalk]
    rfl
  have hempty (place : Place) (hplace : Place.Inside [] place) : ({} : Disk).at? place = none := by
    obtain ⟨first, rest, rfl⟩ := hplace
    exact hnone (List.cons_ne_nil _ _)
  refine ⟨_, .inr (unmade_below (footing_of_empty hroot hempty) ?_ (List.cons_ne_nil _ _)
    ⟨List.forall_mem_singleton.2 hname, hfits⟩ ?_ (hnone (List.cons_ne_nil _ _)))⟩
  · exact fun names last hsome => absurd (hnone (by simp)) hsome
  · intro l _
    by_cases hl : l = []
    · exact .inr (by rw [hl]; rfl)
    · exact .inl (hnone hl)

/-- The path `a/b`. -/
def nested : RelativePath := ⟨["a", "b"], by decide, by decide, by decide⟩

/-- The path `a-b`. -/
def dashed : RelativePath := ⟨["a-b"], by decide, by decide, by decide⟩

/-- The path `a`. -/
def outer : RelativePath := ⟨["a"], by decide, by decide, by decide⟩

/-- The path `d`. -/
def outmost : RelativePath := ⟨["d"], by decide, by decide, by decide⟩

/-- Files in a directory that is missing at first: `a-b` comes before `a/b` in a listing, and only
the latter is below `a`. -/
theorem replies_eq_memory_of_missing :
    (directory .whole ⟨outmost.under [OsPath.separator]⟩).replies
      [.read nested, .write nested [1], .write dashed [2], .list none, .list (some outer),
        .delete nested, .delete nested, .holds dashed] {} =
      [.content (.error (.notFound nested)), .ended (.ok ()), .ended (.ok ()),
        .files (.ok [dashed, nested]), .files (.ok [nested]), .ended (.ok ()),
        .ended (.error (.notFound nested)), .found true] := by
  have haccepted {p : RelativePath} (hshort : ∀ name ∈ p.names, name.length ≤ nameLimit)
      (hnul : ∀ name ∈ p.names, (0 : UInt8) ∉ name) : ∀ name ∈ p.names, Accepted name :=
    fun name hname => ⟨p.isName_segments name hname, hshort name hname, hnul name hname⟩
  have houtmost : Accepted (Bytes.ofText "d") :=
    haccepted (p := outmost) (by decide) (by decide) _ (List.mem_singleton_self _)
  have hused : ∀ p ∈ List.filterMap Operation.file? [.read nested, .write nested [1],
      .write dashed [2], .list none, .list (some outer), .delete nested, .delete nested,
      .holds dashed], p = nested ∨ p = dashed := by decide
  refine (replies_eq_memory (blank_of_name houtmost (by decide)) ⟨?_, ?_⟩ ?_ "" "").trans (by rfl)
  · intro p hp
    rcases hused p hp with rfl | rfl
    · exact ⟨haccepted (by decide) (by decide), by decide⟩
    · exact ⟨haccepted (by decide) (by decide), by decide⟩
  · intro p q hp hq hstart
    rcases hused p hp with rfl | rfl <;> rcases hused q hq with rfl | rfl
    · rfl
    · exact absurd hstart (by decide)
    · exact absurd hstart (by decide)
    · rfl
  · intro p content hwrite
    rcases hused p (List.mem_filterMap.2 ⟨_, hwrite, rfl⟩) with rfl | rfl
    · unfold Roomy
      decide
    · unfold Roomy
      decide

/-! ## No room for the temporary file -/

/-- Where the path of the temporary file is too long, the file cannot be written. -/
theorem meets_write_crowded (h : ¬Roomy root p) (content : Bytes) :
    (write ⟨root⟩ p content).Meets d fun result _ => result ≠ .ok () := by
  have hmake : (makeDirs (parentOf ⟨root⟩ p)).Meets d fun _ _ => True := fun _ => trivial
  refine (hmake.bind (q := fun result _ => result ≠ .ok ()) ?_ nofun).mapError.mono ?_
  · intro _ d₁ _
    rw [if_pos (Nat.not_lt.1 h)]
    exact meets_throw nofun
  · rintro _ _ ⟨ended, rfl, hended⟩ hok
    exact hended (ok_of_mapError hok)

theorem replies_ne_of_crowded (h : ¬Roomy root p) (content : Bytes) (name label : String) :
    (directory .whole ⟨root⟩).replies [.write p content] d ≠
      (MemoryDirectory.directory .whole label).replies [.write p content] ⟨name, ∅⟩ := by
  intro hsame
  have hended := List.head_eq_of_cons_eq hsame
  exact (meets_write_crowded h content).run (Reply.ended.inj hended)

/-- A path that is almost too long, with a short name at the end. -/
def crowded : RelativePath where
  segments := List.replicate 16 Tally.longSegment ++ ["f"]
  nonempty := by simp
  plain := by
    intro s hs
    rcases List.mem_append.1 hs with hlong | hlast
    · exact List.eq_of_mem_replicate hlong ▸ Tally.isSegment_longSegment
    · exact List.mem_singleton.1 hlast ▸ by decide
  noDrive := by
    intro s hs
    rcases List.mem_append.1 (List.mem_of_mem_head? hs) with hlong | hlast
    · rw [List.eq_of_mem_replicate hlong]
      refine Tally.isDriveName_eq_false ?_
      rw [Tally.toList_longSegment, List.length_replicate]
      decide
    · exact List.mem_singleton.1 hlast ▸ by decide

theorem names_crowded :
    crowded.names = List.replicate 16 (Bytes.ofText Tally.longSegment) ++ [Bytes.ofText "f"] := by
  show List.map Bytes.ofText (List.replicate 16 Tally.longSegment ++ ["f"]) = _
  rw [List.map_append, List.map_replicate]
  rfl

theorem accepted_crowded : ∀ name ∈ crowded.names, Accepted name := by
  intro name hname
  have hsizes : name.length ≤ nameLimit ∧ (0 : UInt8) ∉ name := by
    rw [names_crowded] at hname
    rcases List.mem_append.1 hname with hlong | hlast
    · rw [List.eq_of_mem_replicate hlong, Tally.ofText_longSegment.1]
      exact ⟨by decide, Tally.ofText_longSegment.2⟩
    · rw [List.mem_singleton.1 hlast]
      decide
  exact ⟨crowded.isName_segments name hname, hsizes.1, hsizes.2⟩

theorem length_crowded (root : OsPath) {last : List Bytes}
    (hlast : ∀ name ∈ last, OsPath.IsName name) :
    (OsPath.below root (List.replicate 16 (Bytes.ofText Tally.longSegment) ++ last)).length =
      (OsPath.push root []).length + 4015 + (last.map (·.length + 1)).sum := by
  have hlong : OsPath.IsName (Bytes.ofText Tally.longSegment) :=
    OsPath.isName_segment Tally.isSegment_longSegment
  rw [List.replicate_succ, List.cons_append, OsPath.length_below_cons hlong, List.map_append,
    List.map_replicate, List.sum_append, List.sum_replicate_nat, Tally.ofText_longSegment.1]
  · omega
  · intro name hname
    rcases List.mem_append.1 hname with hmem | hmem
    · exact List.eq_of_mem_replicate hmem ▸ hlong
    · exact hlast name hmem

/-- A root with a name of seventy letters. -/
def crowdedRoot : OsPath := OsPath.below [OsPath.separator] [List.replicate 70 0x61]

/-- The file has a path that the operating system takes, but it cannot be written. -/
theorem replies_ne_memory_crowded :
    Blank crowdedRoot {} ∧
      Houses crowdedRoot (· ∈ List.filterMap Operation.file? [.write crowded []]) ∧
      (directory .whole ⟨crowdedRoot⟩).replies [.write crowded []] {} ≠
        (MemoryDirectory.directory .whole "").replies [.write crowded []] ⟨"", ∅⟩ := by
  have hname : Accepted (List.replicate 70 0x61) :=
    ⟨⟨by decide, by decide, by decide, by decide⟩, by decide, by decide⟩
  have hroot : (OsPath.push crowdedRoot []).length = 72 := by decide
  have hlast := OsPath.isName_segment (s := "f") (by decide)
  refine ⟨blank_of_name hname (by decide), ⟨?_, ?_⟩, replies_ne_of_crowded ?_ [] "" ""⟩
  · intro p hp
    cases List.mem_singleton.1 hp
    refine ⟨accepted_crowded, ?_⟩
    rw [names_crowded, length_crowded crowdedRoot (List.forall_mem_singleton.2 hlast), hroot]
    decide
  · intro p q hp hq _
    exact (List.mem_singleton.1 hp).trans (List.mem_singleton.1 hq).symm
  · have hdirs : crowded.names.dropLast = List.replicate 16 (Bytes.ofText Tally.longSegment) := by
      rw [names_crowded, List.dropLast_concat]
    rcases @parentOf_cases crowdedRoot crowded with ⟨hnil, -⟩ | ⟨-, hparent⟩
    · rw [hdirs] at hnil
      cases hnil
    · have hlength := @length_crowded crowdedRoot [] nofun
      rw [List.append_nil, hroot] at hlength
      unfold Roomy
      rw [hparent, hdirs, hlength]
      decide

end LocalDirectory

end Rebuild
