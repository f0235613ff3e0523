import Rebuild.Proofs.Directory.Mirror
import Rebuild.Proofs.Disk.Making

/-!
# One file or none

Writing a file makes directories, makes a temporary file and renames it, and any of these may fail:
there may be a file where a directory is needed or a directory where the file should be, names may
be too long or hold NUL bytes. However it ends, no file anywhere on the disk is another one than
before, but for the one that was written if nothing failed. The same goes for deleting a file.

* `Disk.fileAt?`, `Disk.fileMap`: the files on a disk, and those below a directory.
* `Disk.way_of_walk_append`, `Disk.leads_of_resolve`: a path that leads anywhere leads there by the
  directory that it is below.
* `Disk.meets_replaceFile_anywhere`, `Disk.meets_removeFile_anywhere`: what operations do to a disk.
* `LocalDirectory.Plain`: roots without links below.
* `LocalDirectory.Touches`, `LocalDirectory.touches_one_file`: one file is touched or none.
-/
namespace Rebuild

namespace Disk
open DiskM

variable {d d' : Disk} {root : OsPath} {dir place : Place} {names : List Bytes}

/-! ## Files -/

/-- The contents of the file at a place. -/
def fileAt? (d : Disk) (place : Place) : Option Bytes :=
  match d.at? place with
  | some (.file _ content) => some content
  | _ => none

/-- The files below a directory, by the names that lead to them from there. -/
def fileMap (d : Disk) (dir : Place) (names : List Bytes) : Option Bytes := d.fileAt? (dir ++ names)

theorem fileAt?_congr (h : d'.at? place = d.at? place) : d'.fileAt? place = d.fileAt? place := by
  unfold fileAt?
  rw [h]

theorem fileAt?_eq_none (h : d.at? place = none) : d.fileAt? place = none := by
  unfold fileAt?
  rw [h]

theorem Grew.fileAt?_eq (h : Grew dir d d') : d'.fileAt? = d.fileAt? := by
  funext place
  rcases h place with heq | ⟨-, hnone, hdir⟩
  · exact fileAt?_congr heq
  · unfold fileAt?
    rw [hnone, hdir]

/-! ## Where paths lead -/

theorem way_of_walk_append {follow : Bool} {more : List PathStep} {found : Found}
    (hmore : more ≠ []) : ∀ {n : Nat} {here : Place} {first : List PathStep},
    d.walk follow n here (first ++ more) = .ok found →
      ∃ m dir, Way d n here first m dir ∧ d.walk follow m dir more = .ok found
  | n, here, [], h => by
    refine ⟨n, here, .done ?_, h⟩
    obtain ⟨step, rest, rfl⟩ := List.exists_cons_of_ne_nil hmore
    rw [List.nil_append, walk.eq_def] at h
    dsimp only at h
    split at h
    · cases h
    next hhere => exact Decidable.not_not.1 hhere
  | n, here, .stay :: first, h => by
    rw [List.cons_append, walk] at h
    split at h
    · cases h
    next hhere =>
      obtain ⟨m, dir, hway, hrest⟩ := way_of_walk_append hmore h
      exact ⟨m, dir, .stay (Decidable.not_not.1 hhere) hway, hrest⟩
  | n, here, .up :: first, h => by
    rw [List.cons_append, walk] at h
    split at h
    · cases h
    next hhere =>
      obtain ⟨m, dir, hway, hrest⟩ := way_of_walk_append hmore h
      exact ⟨m, dir, .up (Decidable.not_not.1 hhere) hway, hrest⟩
  | n, here, .down name :: first, h => by
    have hlast : first ++ more ≠ [] := List.append_ne_nil_of_right_ne_nil first hmore
    rw [List.cons_append, walk] at h
    split at h
    · cases h
    next hhere =>
      have hhere := Decidable.not_not.1 hhere
      dsimp only at h
      split at h
      · cases h
      next hshort =>
        split at h
        next => cases h
        next target hlink =>
          rw [if_neg fun e => hlast e.1] at h
          cases n with
          | zero => cases h
          | succ n =>
            rw [← List.append_assoc] at h
            obtain ⟨m, dir, hway, hrest⟩ := way_of_walk_append hmore h
            exact ⟨m, dir, .link hhere hshort hlink hway, hrest⟩
        next item _ hitem =>
          obtain ⟨m, dir, hway, hrest⟩ := way_of_walk_append hmore h
          exact ⟨m, dir, .down hhere hshort hway.start hway, hrest⟩
  termination_by n _ first => (n, first.length)

/-- A path that leads anywhere leads there by the directory that it is below. -/
theorem leads_of_resolve (hnames : ∀ name ∈ names, OsPath.IsName name) (hne : names ≠ [])
    {follow : Bool} {found : Found} (h : d.resolve follow (OsPath.below root names) = .ok found) :
    ∃ m dir, Leads root dir d ∧ d.walk follow m dir (names.map .down) = .ok found := by
  obtain ⟨hnul, hlength⟩ := accepted_of_resolve h
  unfold resolve at h
  rw [if_neg hnul, if_neg (OsPath.below_ne_nil hnames hne root), if_neg (Nat.not_le.2 hlength)] at h
  by_cases hroot : root = []
  · subst hroot
    rw [OsPath.steps_below_nil hnames hne] at h
    exact ⟨_, [], .inr ⟨rfl, rfl⟩, h⟩
  · have habove := OsPath.prefix_below hnames root
    obtain ⟨k, hsteps⟩ := OsPath.steps_eq_stem root
    rw [(OsPath.steps_below hnames hroot hne).1] at h
    obtain ⟨m, dir, hway, hwalk⟩ := way_of_walk_append (fun e => hne (List.map_eq_nil_iff.1 e)) h
    have hshort : root.length < pathLimit := Nat.lt_of_le_of_lt habove.length_le hlength
    exact ⟨m, dir, .inl (hway.dirAt_eq hsteps hroot (fun hmem => hnul (habove.subset hmem))
      (Nat.not_le.2 hshort)), hwalk⟩

theorem Leads.unique {other : Place} (h : Leads root dir d) (h' : Leads root other d) :
    other = dir := by
  have hnot {place : Place} : d.dirAt [] ≠ .ok place := nofun
  rcases h with h | ⟨rfl, rfl⟩ <;> rcases h' with h' | ⟨hroot, rfl⟩
  · exact Except.ok.inj (h'.symm.trans h)
  · exact absurd (hroot ▸ h) hnot
  · exact absurd h' hnot
  · rfl

/-- There are no links below a place. -/
def Linkless (dir : Place) (d : Disk) : Prop :=
  ∀ place target, dir.Inside place → d.at? place ≠ some (.link target)

/-- Below a directory without links, a path of names leads to the place of these names. -/
theorem found_of_resolve (hnames : ∀ name ∈ names, OsPath.IsName name) (hne : names ≠ [])
    (hlinkless : ∀ dir, Leads root dir d → Linkless dir d) {follow : Bool} {found : Found}
    (h : d.resolve follow (OsPath.below root names) = .ok found) :
    ∃ dir, Leads root dir d ∧ found = ⟨dir ++ names, d.at? (dir ++ names)⟩ := by
  obtain ⟨m, dir, hdir, hwalk⟩ := leads_of_resolve hnames hne h
  exact ⟨dir, hdir, (walk_names (hlinkless dir hdir) hwalk).1⟩

theorem Proper.walk_eq (h : d.Proper) (hdir : d.at? dir = some .dir) (hlinkless : Linkless dir d)
    (hsome : d.at? (dir ++ names) ≠ none) (follow : Bool) (n : Nat) :
    d.walk follow n dir (names.map .down) = .ok ⟨dir ++ names, d.at? (dir ++ names)⟩ := by
  have habove {l : List Bytes} {name : Bytes} {rest : List Bytes} (e : names = l ++ name :: rest) :
      d.at? (dir ++ l) = some .dir := by
    rw [e, ← List.append_assoc] at hsome
    exact h.tree.at?_of_below hsome
  refine walk_down hlinkless (fun name hname => ?_) hdir fun l hl => ?_
  · obtain ⟨l, rest, e⟩ := List.append_of_mem hname
    refine (h.named (dir ++ l) name ?_).short
    cases rest with
    | nil => rwa [e, ← List.append_assoc] at hsome
    | cons next rest =>
      rw [List.append_assoc, habove (e.trans (List.append_cons l name (next :: rest)))]
      exact Option.some_ne_none _
  · obtain ⟨more, hmore⟩ := hl
    by_cases hne : names = []
    · rw [hne, List.dropLast_nil] at hmore
      rwa [(List.append_eq_nil_iff.1 hmore).1, List.append_nil]
    · have e : names = l ++ (more ++ [names.getLast hne]) := by
        rw [← List.append_assoc, hmore, List.dropLast_concat_getLast]
      obtain ⟨name, rest, hrest⟩ : ∃ name rest, more ++ [names.getLast hne] = name :: rest :=
        List.exists_cons_of_ne_nil (List.append_ne_nil_of_right_ne_nil _ (List.cons_ne_nil _ _))
      exact habove (e.trans (by rw [hrest]))

theorem at?_of_nowhere (h : d.Proper) (hnames : ∀ name ∈ names, OsPath.IsName name)
    (hne : names ≠ []) (hdir : Leads root dir d) (hlinkless : Linkless dir d) {follow : Bool}
    (hnowhere : Nowhere (d.resolve follow (OsPath.below root names))) :
    d.at? (dir ++ names) = none := by
  rcases hnowhere with hmissing | ⟨place, hfree⟩
  · refine Decidable.not_not.1 fun hsome => ?_
    obtain ⟨m, hwalk⟩ := hdir.walk_below hnames hne
    unfold resolve at hmissing
    rw [if_neg (OsPath.below_ne_nil hnames hne root), hwalk,
      h.walk_eq hdir.at?_dir hlinkless hsome] at hmissing
    split at hmissing
    · cases hmissing
    · split at hmissing <;> cases hmissing
  · have hall (other : Place) (hother : Leads root other d) : Linkless other d :=
      hdir.unique hother ▸ hlinkless
    obtain ⟨other, hother, hfound⟩ := found_of_resolve hnames hne hall hfree
    rw [hdir.unique hother] at hfound
    exact (Found.mk.inj hfound).2.symm

/-! ## Changes -/

/-- A file that is put into a directory where nothing lay hangs nowhere in the air. -/
theorem IsTree.makeFile {name : Bytes} (h : d.IsTree []) (hdir : d.at? dir = some .dir)
    (hfree : d.at? (dir ++ [name]) = none) (content : Bytes) :
    ((DiskOp.makeFile (dir ++ [name]) content).apply d).IsTree [] := by
  have hat := DiskOp.at?_apply_makeFile d (named_ne_nil dir name) content
  intro above last hsome
  have habove : d.at? above = some .dir := by
    rw [List.nil_append, hat] at hsome
    split at hsome
    next heq => rwa [(List.append_inj' heq rfl).1]
    next => exact h above last hsome
  have hother : above ≠ dir ++ [name] := fun e => by
    rw [e, hfree] at habove
    cases habove
  rwa [List.nil_append, hat, if_neg hother]

/-- A file is renamed to where a path leads, unless it leads to a directory. -/
theorem meets_rename_file {source : Place} {serial : Nat} {content : Bytes} {target : OsPath}
    (hsource : d.at? source = some (.file serial content)) :
    (rename source target).Meets d fun result d' =>
      ((∃ e, result = .error e) ∧ d' = d) ∨
      (result = .ok () ∧ ∃ found, d.resolve false target = .ok found ∧ found.item ≠ some .dir ∧
        d' = (DiskOp.move source found.place).apply d) := by
  refine .ask_bind (fun found hfound => .disk_bind ?_) fun e _ => .inl ⟨⟨e, rfl⟩, rfl⟩
  dsimp only
  rw [hsource]
  split
  next heq _ => cases heq
  next heq _ => cases heq
  next => exact meets_throw (.inl ⟨⟨_, rfl⟩, rfl⟩)
  next hdir _ _ => exact meets_change (.inr ⟨rfl, found, hfound, hdir, rfl⟩)

/-- At names below a directory there is a file now, or none any more. -/
structure Changed (root : OsPath) (dir : Place) (names : List Bytes) (after : Option Bytes)
    (d d' : Disk) : Prop where
  leads : Leads root dir d
  notDir : d.at? (dir ++ names) ≠ some .dir
  others : ∀ q, q ≠ dir ++ names → d'.at? q = d.at? q
  file : d'.fileAt? (dir ++ names) = after

namespace Changed

variable {after : Option Bytes}

theorem fileAt?_eq (h : Changed root dir names after d d') :
    d'.fileAt? = Function.update d.fileAt? (dir ++ names) after := by
  funext q
  by_cases hq : q = dir ++ names
  · rw [hq, h.file, Function.update_self]
  · rw [Function.update_of_ne hq, fileAt?_congr (h.others q hq)]

theorem leads_after (h : Changed root dir names after d d') (hne : names ≠ [])
    (hlinkless : Linkless dir d) : Leads root dir d' := by
  refine h.leads.mono fun q item hnofile hitem => ?_
  rw [h.others q, hitem]
  rintro rfl
  cases item with
  | dir => exact h.notDir hitem
  | link target => exact hlinkless _ target (inside_append dir hne) hitem
  | file serial content => exact hnofile serial content rfl

end Changed

theorem meets_exchange_anywhere {fresh : Bytes} (h : d.IsTree [])
    (hnames : ∀ name ∈ names, OsPath.IsName name) (hne : names ≠ [])
    (hlinkless : ∀ dir, Leads root dir d → Linkless dir d) (hplace : d.at? place = some .dir)
    (hfree : d.at? (place ++ [fresh]) = none) (content : Bytes) :
    (do
      change (.makeFile (place ++ [fresh]) content)
      if let .error e ← attempt (rename (place ++ [fresh]) (OsPath.below root names)) then
        change (.remove (place ++ [fresh]))
        throw (if e = .nulByte then .invalidArgument else e) : DiskM OsError Unit).Meets d
      fun result d' => ((∃ e, result = .error e) ∧ ∀ q, d'.at? q = d.at? q) ∨
        (result = .ok () ∧ ∃ dir, Changed root dir names (some content) d d') := by
  have htree := h.makeFile hplace hfree content
  have htemporary := named_ne_nil place fresh
  have hbelow (q : Place) (hq : Place.Inside (place ++ [fresh]) q) : d.at? q = none := by
    have hnot : d.at? (place ++ [fresh]) ≠ some .dir := by
      rw [hfree]
      nofun
    exact h.at?_eq_none hnot hq
  generalize place ++ [fresh] = temporary at hfree htree htemporary hbelow ⊢
  have hmade := DiskOp.at?_apply_makeFile d htemporary content
  refine .change_bind (.attempt_bind (meets_rename_file (by rw [hmade, if_pos rfl])) ?_)
  rintro result d' (⟨⟨e, rfl⟩, rfl⟩ | ⟨rfl, found, hfound, hdir, rfl⟩)
  · refine .change_bind (meets_throw (.inl ⟨⟨_, rfl⟩, fun q => ?_⟩))
    rw [DiskOp.at?_apply_remove _ htemporary, hmade]
    split
    next heq => rw [heq, hfree]
    next => rfl
  · -- the directories and links are those that were there before the temporary file
    have hkeep (q : Place) (item : Item) (hnofile : ∀ serial content, item ≠ .file serial content)
        (hitem : ((DiskOp.makeFile temporary content).apply d).at? q = some item) :
        d.at? q = some item := by
      rw [hmade] at hitem
      split at hitem
      next => exact absurd (Option.some.inj hitem).symm (hnofile _ _)
      next => exact hitem
    have hall (dir : Place)
        (hleads : Leads root dir ((DiskOp.makeFile temporary content).apply d)) :
        Linkless dir ((DiskOp.makeFile temporary content).apply d) := fun q target hq hlink =>
      hlinkless dir (hleads.mono hkeep) q target hq (hkeep q _ (fun _ _ => nofun) hlink)
    obtain ⟨dir, hleads, rfl⟩ := found_of_resolve hnames hne hall hfound
    have hclear (q : Place) (hq : Place.Inside (dir ++ names) q) :
        ((DiskOp.makeFile temporary content).apply d).at? q = none := htree.at?_eq_none hdir hq
    have hat := at?_move_makeFile htemporary (List.append_ne_nil_of_right_ne_nil dir hne) hfree
      hbelow hclear
    refine meets_pure (.inr ⟨rfl, dir, hleads.mono hkeep, fun hself => hdir ?_, fun q hq => ?_, ?_⟩)
    · have hother : dir ++ names ≠ temporary := fun e => by
        rw [e, hfree] at hself
        cases hself
      dsimp only
      rw [hmade, if_neg hother, hself]
    · rw [hat, if_neg hq]
    · unfold fileAt?
      rw [hat, if_pos rfl]

/-- Writing a file makes directories, and puts the file where its path leads or changes nothing
else. -/
theorem meets_replaceFile_anywhere (h : d.Proper) (hnames : ∀ name ∈ names, OsPath.IsName name)
    (hne : names ≠ [])
    (hlinkless : ∀ d₁ dir, Made d d₁ → Leads root dir d₁ → Linkless dir d₁) (above : OsPath)
    (content : Bytes) :
    (replaceFile above (OsPath.below root names) content).Meets d fun result d' =>
      ∃ d₁, Made d d₁ ∧ (((∃ e, result = .error e) ∧ ∀ q, d'.at? q = d₁.at? q) ∨
        (result = .ok () ∧ ∃ dir, Changed root dir names (some content) d₁ d')) := by
  refine .bind (meets_makeDirs_anywhere h above) ?_
    fun e d₁ ⟨hmade, _⟩ => ⟨d₁, hmade, .inl ⟨⟨e, rfl⟩, fun _ => rfl⟩⟩
  intro _ d₁ ⟨hmade, _⟩
  split
  · exact meets_throw ⟨d₁, hmade, .inl ⟨⟨_, rfl⟩, fun _ => rfl⟩⟩
  refine .ask_bind (fun place hplace => .disk_bind ?_)
    fun e _ => ⟨d₁, hmade, .inl ⟨⟨e, rfl⟩, fun _ => rfl⟩⟩
  have hexchange := meets_exchange_anywhere hmade.proper.tree hnames hne
    (fun dir => hlinkless d₁ dir hmade) (at?_of_dirAt hplace) (d₁.at?_freshName place ".tmp")
    content
  exact hexchange.mono fun result d' hended => ⟨d₁, hmade, hended⟩

/-- Removing a file takes away what its path leads to, or changes nothing. -/
theorem meets_removeFile_anywhere (hnames : ∀ name ∈ names, OsPath.IsName name) (hne : names ≠ [])
    (hlinkless : ∀ dir, Leads root dir d → Linkless dir d) :
    (removeFile (OsPath.below root names)).Meets d fun result d' =>
      (∃ e, result = .error e ∧ d' = d ∧
        (e = .missing → Nowhere (d.resolve false (OsPath.below root names)))) ∨
      (result = .ok () ∧ ∃ dir, d.fileAt? (dir ++ names) ≠ none ∧
        Changed root dir names none d d') := by
  refine .ask_bind (fun found hfound => ?_)
    fun e he => .inl ⟨e, rfl, rfl, fun hmissing => .inl (hmissing ▸ he)⟩
  obtain ⟨dir, hleads, rfl⟩ := found_of_resolve hnames hne hlinkless hfound
  dsimp only
  split
  next => exact meets_throw (.inl ⟨_, rfl, rfl, nofun⟩)
  next item hdir hitem =>
    have hat := DiskOp.at?_apply_remove d (List.append_ne_nil_of_right_ne_nil dir hne)
    refine meets_change (.inr ⟨rfl, dir, ?_, hleads, ?_, fun q hq => ?_, ?_⟩)
    · cases item with
      | dir => exact absurd rfl hdir
      | link target => exact absurd hitem (hlinkless dir hleads _ target (inside_append dir hne))
      | file serial content =>
        unfold fileAt?
        rw [hitem]
        exact Option.some_ne_none _
    · rw [hitem]
      exact fun e => hdir (Option.some.inj e)
    · rw [hat, if_neg hq]
    · exact fileAt?_eq_none (by rw [hat, if_pos rfl])
  next hnone => exact meets_throw (.inl ⟨_, rfl, rfl, fun _ => .inr ⟨_, by rw [hfound, hnone]⟩⟩)

end Disk

namespace LocalDirectory
open DiskM Disk

variable {d d₁ d' : Disk} {root : OsPath} {dir : Place} {p : RelativePath} {after : Option Bytes}

/-! ## Roots without links -/

/-- Below a root there are only directories and files, also if it leads nowhere until directories
have been made. -/
def Plain (root : OsPath) (d : Disk) : Prop :=
  ∀ d₁ dir, Made d d₁ → Leads root dir d₁ → Linkless dir d₁

theorem linkless_of_made (h : Linkless dir d) (hmade : Made d d₁) : Linkless dir d₁ := by
  intro place target hplace
  rcases hmade.grew place with heq | ⟨-, -, heq⟩ <;> rw [heq]
  · exact h place target hplace
  · nofun

theorem leads_of_made (h : Leads root dir d) (hmade : Made d d₁) : Leads root dir d₁ :=
  h.mono fun _ _ _ hitem => hmade.grew.at?_eq hitem

/-- On a disk without links every root is plain, be it there or not. -/
theorem plain_of_linkless (h : Linkless [] d) (root : OsPath) : Plain root d := by
  rintro d₁ dir hmade - place target ⟨name, names, rfl⟩
  exact linkless_of_made h hmade _ target (inside_append [] (by simp))

/-! ## Touching a file -/

/-- How an operation on one path ends. If it succeeds, the file at the path is another one, in the
directory that the root leads to and led to before if it was there; if it fails, the files below any
directory are the same. No other file on the disk is touched, so no temporary file is left. -/
structure Touches (root : OsPath) (p : RelativePath) (after : Option Bytes) (d : Disk)
    (result : Except FsError Unit) (d' : Disk) : Prop where
  done : result = .ok () → ∃ dir, Leads root dir d' ∧ (∀ other, Leads root other d → other = dir) ∧
    d'.fileMap dir = Function.update (d.fileMap dir) p.names after
  failed : ∀ e, result = .error e → ∀ dir, d'.fileMap dir = d.fileMap dir
  others : ∀ place, d'.fileAt? place ≠ d.fileAt? place →
    result = .ok () ∧ ∃ dir, Leads root dir d' ∧ place = dir ++ p.names

theorem touches_failed (hmade : Made d d₁) (hsame : ∀ q, d'.at? q = d₁.at? q) (e : FsError) :
    Touches root p after d (.error e) d' := by
  have hfiles : d'.fileAt? = d.fileAt? := by
    rw [← hmade.grew.fileAt?_eq]
    funext q
    exact fileAt?_congr (hsame q)
  refine ⟨nofun, fun _ _ dir => ?_, fun place hother => absurd (congrFun hfiles place) hother⟩
  unfold fileMap
  rw [hfiles]

theorem touches_done (hmade : Made d d₁) (hlinkless : Linkless dir d₁)
    (hchanged : Changed root dir p.names after d₁ d') : Touches root p after d (.ok ()) d' := by
  have hdir := hchanged.leads_after p.names_ne_nil hlinkless
  have hfiles : d'.fileAt? = Function.update d.fileAt? (dir ++ p.names) after := by
    rw [hchanged.fileAt?_eq, hmade.grew.fileAt?_eq]
  refine ⟨fun _ => ⟨dir, hdir, fun other hother => ?_, ?_⟩, nofun,
    fun place hother => ⟨rfl, dir, hdir, ?_⟩⟩
  · exact hchanged.leads.unique (leads_of_made hother hmade)
  · unfold fileMap
    rw [hfiles]
    exact Function.update_comp_eq_of_injective _ (List.append_right_injective dir) _ _
  · refine Decidable.not_not.1 fun hne => hother ?_
    rw [hfiles, Function.update_of_ne hne]

theorem meets_write (h : d.Proper) (hplain : Plain root d) (p : RelativePath) (content : Bytes) :
    (write ⟨root⟩ p content).Meets d (Touches root p (some content) d) := by
  unfold write
  rw [RelativePath.under_names]
  refine (meets_replaceFile_anywhere h p.isName_segments p.names_ne_nil hplain _
    content).mapError.mono ?_
  rintro _ d' ⟨_, rfl, d₁, hmade, ⟨⟨e, rfl⟩, hsame⟩ | ⟨rfl, dir, hchanged⟩⟩
  · exact touches_failed hmade hsame _
  · exact touches_done hmade (hplain d₁ dir hmade hchanged.leads) hchanged

/-- Deleting a file, which is not said to be missing unless nothing lies there. -/
theorem meets_delete (h : d.Proper) (hplain : Plain root d) (p : RelativePath) :
    (delete ⟨root⟩ p).Meets d fun result d' =>
      Touches root p none d result d' ∧
      (result = .ok () → ∃ dir, Leads root dir d ∧ d.fileMap dir p.names ≠ none) ∧
      ∀ q, result = .error (.notFound q) →
        q = p ∧ ∀ dir, Leads root dir d → d.at? (dir ++ p.names) = none := by
  have hself := Made.refl h
  have hlinkless (dir : Place) (hdir : Leads root dir d) : Linkless dir d := hplain d dir hself hdir
  unfold delete
  rw [RelativePath.under_names]
  refine (meets_removeFile_anywhere p.isName_segments p.names_ne_nil hlinkless).mapError.mono ?_
  rintro _ d' ⟨_, rfl, ⟨e, rfl, rfl, hmissing⟩ | ⟨rfl, dir, hfile, hchanged⟩⟩
  · refine ⟨touches_failed hself (fun _ => rfl) _, nofun, fun q hq => ?_⟩
    have he : e = .missing ∧ q = p := by
      cases e <;> cases hq
      exact ⟨rfl, rfl⟩
    exact ⟨he.2, fun dir hdir => at?_of_nowhere h p.isName_segments p.names_ne_nil hdir
      (hlinkless dir hdir) (hmissing he.1)⟩
  · exact ⟨touches_done hself (hlinkless dir hchanged.leads) hchanged,
      fun _ => ⟨dir, hchanged.leads, hfile⟩, nofun⟩

/-! ## Main result -/

/-- Writing a file gives it its contents and leaves all other files alone, or it fails and leaves
all files alone. Deleting a file takes it away and leaves all other files alone, or it fails and
leaves all files alone; it says that there is no such file only if nothing lies there. -/
theorem touches_one_file (h : d.Proper) (hplain : Plain root d) (p : RelativePath)
    (content : Bytes) :
    (∀ result d', (write ⟨root⟩ p content).run d = (result, d') →
      Touches root p (some content) d result d') ∧
    ∀ result d', (delete ⟨root⟩ p).run d = (result, d') →
      Touches root p none d result d' ∧
      (result = .ok () → ∃ dir, Leads root dir d ∧ d.fileMap dir p.names ≠ none) ∧
      ∀ q, result = .error (.notFound q) →
        q = p ∧ ∀ dir, Leads root dir d → d.at? (dir ++ p.names) = none := by
  refine ⟨fun result d' hrun => ?_, fun result d' hrun => ?_⟩
  · have hwritten := (meets_write h hplain p content).run
    rwa [hrun] at hwritten
  · have hdeleted := (meets_delete h hplain p).run
    rwa [hrun] at hdeleted

/-- A disk with a file `x`. -/
def oneFile : Disk := (DiskOp.makeFile [[0x78]] [1]).apply {}

/-- Below the root of the disk, `x` may be written, and it is gone when it has been deleted. -/
theorem touches_one_file_leaf :
    (∀ result d', (write ⟨[OsPath.separator]⟩ .leaf [2]).run oneFile = (result, d') →
      Touches [OsPath.separator] .leaf (some [2]) oneFile result d') ∧
    ∃ d', (delete ⟨[OsPath.separator]⟩ .leaf).run oneFile = (.ok (), d') ∧
      d'.fileMap [] = Function.update (oneFile.fileMap []) [[0x78]] none := by
  have hname : Accepted [0x78] :=
    ⟨RelativePath.leaf.isName_segments _ (by decide), by decide, by decide⟩
  have hproper : ((DiskOp.makeFile ([] ++ [[0x78]]) [1]).apply {}).Proper :=
    Proper.empty.makeFile rfl hname rfl [1]
  have hat := DiskOp.at?_apply_makeFile {} (named_ne_nil [] [0x78]) [1]
  have hlinkless : Linkless [] oneFile := by
    rintro place target ⟨name, names, rfl⟩ hlink
    have hitem := (hat _).symm.trans hlink
    split at hitem <;> cases hitem
  have hleads : Leads [OsPath.separator] [] oneFile :=
    .inl (Way.dirAt_eq (k := 2) (.done rfl) (by decide) (by decide) (by decide) (by decide))
  have hresolve : oneFile.resolve false (RelativePath.leaf.under [OsPath.separator]) =
      .ok ⟨[[0x78]], some (.file 0 [1])⟩ :=
    hleads.resolve_name ⟨fun name hn => List.mem_singleton.1 hn ▸ hname, by decide⟩ nofun
  have hremove : (removeFile (RelativePath.leaf.under [OsPath.separator])).Meets oneFile
      fun result _ => result = .ok () := by
    refine .ask_bind (fun found hfound => ?_) fun e he => by cases hresolve.symm.trans he
    cases hresolve.symm.trans hfound
    exact meets_change rfl
  have hdelete : (delete ⟨[OsPath.separator]⟩ .leaf).Meets oneFile fun result _ =>
      result = .ok () := hremove.mapError.mono fun _ _ ⟨_, heq, hok⟩ => by rw [heq, hok]; rfl
  obtain ⟨hwrites, hdeletes⟩ :=
    touches_one_file hproper (plain_of_linkless hlinkless [OsPath.separator]) .leaf [2]
  obtain ⟨dir, -, hdir, hmap⟩ := (hdeletes _ _ rfl).1.done hdelete.run
  cases hdir [] hleads
  exact ⟨hwrites, _, Prod.ext hdelete.run rfl, hmap⟩

end LocalDirectory

end Rebuild
