import Rebuild.Proofs.Cache.Apart
import Rebuild.Proofs.Disk.Member

/-!
# Stores that fail

A store that fails leaves all as it was: what was put into the staging directory is removed
with it, and the old entry is touched only when nothing can fail any more. For this the
path to the root must not lead through the entry; otherwise it leads nowhere once the entry
is removed, and then neither the new entry gets to its place nor is the staging directory
found again.

* `DiskCache.meets_stage_enclosed`: staging touches nothing but the staging directory.
* `DiskCache.meets_install_failed`: an installation that fails has changed nothing.
* `DiskCache.meets_store_failed`: so does a store.
* `unchanged_of_failed_store`: failed stores into caches on the disk and in memory.
* `DiskCache.meets_store_lost`: a store where the path to the root leads through the entry.
-/
namespace Rebuild
open DiskM

namespace DiskCache

variable {c : DiskCache} {d d' : Disk} {root : OsPath} {dir : Place} {name : Bytes}
  {id : BuilderId} {fp : Fingerprint} {encoded : Bytes} {outputs : Outputs}
  {read : RelativePath → Except FsError Bytes}

/-! ## Staging -/

/-- Nothing has changed but what lies in a directory, and that is still a footing. -/
structure Enclosed (root : OsPath) (dir : Place) (d d' : Disk) : Prop where
  footing : d'.Footing root dir
  outside : d.AgreesOff dir d'

theorem Enclosed.meets_write (h : Enclosed root dir d d')
    (hfiles : d'.at? (dir ++ [filesName]) = some .dir) (p : RelativePath) (content : Bytes) :
    ((filesIn root).write p content).Meets d' fun _ d'' =>
      Enclosed root dir d d'' ∧ d''.at? (dir ++ [filesName]) = some .dir := by
  have hparent : (filesIn root).parentOf p =
      OsPath.below root (filesName :: (p.segments.map Bytes.ofText).dropLast) :=
    parentOf_eq (trimStays_filesIn _) p
  have hfile : p.under (filesIn root).root = OsPath.below root (filePlace p) :=
    RelativePath.under_eq p _
  have hdirs : ∀ n ∈ filesName :: (p.segments.map Bytes.ofText).dropLast, OsPath.IsName n :=
    List.forall_mem_cons.2
      ⟨isName_filesName, fun n hn => p.isName_segments n (List.dropLast_subset _ hn)⟩
  unfold LocalDirectory.write
  rw [hparent, hfile]
  refine (Disk.meets_replaceFile h.footing hfiles hdirs (isName_filePlace p) content).mapError.mono
    fun _ d'' ⟨_, _, hfooting, hwrote, _⟩ => ⟨⟨hfooting, ?_⟩, ?_⟩
  · intro q hq
    rcases hwrote q with heq | ⟨hin, -, -⟩ | ⟨heq, -⟩
    · exact heq.trans (h.outside q hq)
    · obtain ⟨n, names, rfl⟩ := hin
      exact absurd (Disk.inside_of_below (List.cons_ne_nil _ _) (List.prefix_append _ _)) hq
    · exact absurd (heq ▸ Disk.inside_append dir (List.cons_ne_nil _ _)) hq
  · rcases hwrote (dir ++ [filesName]) with heq | ⟨hin, -, -⟩ | ⟨heq, -⟩
    · exact heq.trans hfiles
    · exact absurd hin (Disk.not_inside_self _)
    · have hnil := (List.cons.inj (List.append_cancel_left heq)).2
      exact absurd (List.map_eq_nil_iff.1 hnil.symm) p.nonempty

theorem Enclosed.meets_put (h : Enclosed root dir d d') {file : String}
    (hfile : OsPath.IsName (Bytes.ofText file)) (content : Bytes) :
    (Disk.writeFile (root.child file) content).Meets d' fun _ d'' => Enclosed root dir d d'' := by
  rw [OsPath.child_eq]
  refine (Disk.meets_writeFile h.footing (List.forall_mem_singleton.2 hfile)
    (List.cons_ne_nil _ _) content).mono fun _ d'' hplaced => ⟨hplaced.footing, fun q hq => ?_⟩
  rcases hplaced.others q with heq | ⟨heq, -⟩
  · exact heq.trans (h.outside q hq)
  · exact absurd (heq ▸ Disk.inside_append dir (List.cons_ne_nil _ _)) hq

/-- Staging an entry touches nothing but what lies in the staging directory. -/
theorem meets_stage_enclosed (h : d.Footing root dir) :
    (stage root id encoded outputs read).Meets d fun _ d' => Enclosed root dir d d' := by
  have hnamed {result : Except OsError Unit} {d' : Disk}
      (hd : Disk.Named root dir filesName d result d') : Enclosed root dir d d' :=
    ⟨hd.footing, fun q hq => (hd.grew q).resolve_right fun hg => hq hg.1⟩
  refine .bind (Disk.meets_makeDirs_name h isName_filesName).mapError ?_
    fun _ _ ⟨_, _, hd⟩ => hnamed hd
  intro _ d₁ ⟨_, heq, hd₁⟩
  refine .bind (p := fun _ d₂ => Enclosed root dir d d₂) (meets_forIn (fun _ d₂ =>
    Enclosed root dir d d₂ ∧ d₂.at? (dir ++ [filesName]) = some .dir) ?_ (fun _ hd => hd.1) _ _
    ⟨hnamed hd₁, hd₁.made (ok_of_mapError heq.symm)⟩) ?_ fun _ _ hd => hd
  · intro p left d₂ ⟨h₂, hfiles⟩
    refine .ask_bind (fun content _ => ?_) fun e _ => .inr ⟨e, rfl, h₂⟩
    exact .bind (h₂.meets_write hfiles p content).mapError
      (fun _ _ ⟨_, _, hd⟩ => meets_pure (.inl ⟨rfl, hd⟩)) fun e _ ⟨_, _, hd⟩ => .inr ⟨e, rfl, hd.1⟩
  · intro _ d₂ h₂
    refine .bind (h₂.meets_put isName_indexName _).mapError ?_ fun _ _ ⟨_, _, h₃⟩ => h₃
    intro _ d₃ ⟨_, _, h₃⟩
    exact (h₃.meets_put isName_fingerprintName encoded).mapError.mono fun _ _ ⟨_, _, h₄⟩ => h₄

/-! ## Installing -/

/-- An installation that fails has changed nothing: once the old entry is removed, nothing can fail
any more. -/
theorem meets_install_failed (hself : d.at? (dir ++ [name]) = some .dir)
    (hname : name ≠ entryName id)
    (hbypasses : d.Bypasses c.root dir (dir ++ [entryName id])) :
    (install (dir ++ [name]) (c.entryDir id)).Meets d fun result d' =>
      (∃ e, result = .error e) → d' = d := by
  have hplace : dir ++ [entryName id] ≠ [] := Disk.named_ne_nil _ _
  have hdir := hbypasses.dirAt_eq hplace fun _ _ _ hitem => hitem
  unfold install
  rw [entryDir_eq]
  refine .disk_bind ?_
  dsimp only
  split
  · refine .bind (Disk.meets_removeTree_name hdir (isName_entryName id)).mapError ?_ ?_
    · rintro _ d₁ ⟨_, heq, ⟨⟨e, rfl⟩, -⟩ | ⟨-, hlimits, hnone, hothers⟩⟩
      · cases heq
      · have hdir₁ := hbypasses.dirAt_eq hplace fun q _ hq hitem => (hothers q hq).trans hitem
        have hself₁ : d₁.at? (dir ++ [name]) = some .dir := by
          have hnot : ¬dir ++ [entryName id] <+: dir ++ [name] ++ [] :=
            Disk.not_below_other hname []
          rw [List.append_nil] at hnot
          exact (hothers _ hnot).trans hself
        refine (Disk.meets_rename_name_ok hdir₁ hlimits hnone hself₁).mapError.mono ?_
        rintro _ d₂ ⟨_, rfl, rfl⟩ ⟨e, he⟩
        cases he
    · rintro e d₁ ⟨_, heq, ⟨-, hsame⟩ | ⟨rfl, -⟩⟩ -
      · exact hsame
      · cases heq
  · refine (Disk.meets_rename_failed _ _).mapError.mono ?_
    rintro _ d₁ ⟨ended, rfl, hfailed⟩ ⟨e, he⟩
    cases ended with
    | ok => cases he
    | error e => exact hfailed ⟨e, rfl⟩

/-! ## Storing -/

/-- A cache whose root holds a tree, and whose path to the root does not need the entry of a
builder. -/
structure Standing (c : DiskCache) (id : BuilderId) (d : Disk) : Prop where
  tree : ∀ dir, d.dirAt c.root = .ok dir → d.IsTree dir
  bypasses : ∀ dir, d.dirAt c.root = .ok dir → d.Bypasses c.root dir (dir ++ [entryName id])

theorem standing_of_footing (h : d.Footing c.root dir) (id : BuilderId) : c.Standing id d := by
  have heq {place : Place} (hplace : d.dirAt c.root = .ok place) : place = dir :=
    Except.ok.inj (hplace.symm.trans h.dirAt_eq)
  refine ⟨fun place hplace => ?_, fun place hplace => ?_⟩ <;> rw [heq hplace]
  · exact h.isTree
  · exact h.bypasses _

/-- There is a directory, and what does not lie in it is as it was. -/
structure Beside (place : Place) (d d' : Disk) : Prop where
  self : d'.at? place = some .dir
  others : ∀ q, ¬place <+: q → d'.at? q = d.at? q

section Beside

variable {place : Place} {d'' : Disk}

theorem beside_makeDir (hplace : place ≠ []) (d : Disk) :
    Beside place d ((DiskOp.makeDir place).apply d) := by
  have hat := DiskOp.at?_apply_makeDir d hplace
  refine ⟨by rw [hat, if_pos rfl], fun q hq => ?_⟩
  have hother : q ≠ place := fun e => hq (e ▸ List.prefix_rfl)
  rw [hat, if_neg hother]

theorem Beside.trans_enclosed (h : Beside place d d') (henclosed : Enclosed root place d' d'') :
    Beside place d d'' := by
  refine ⟨(henclosed.outside _ (Disk.not_inside_self _)).trans h.self, fun q hq => ?_⟩
  have hout : ¬place.Inside q := fun ⟨n, names, e⟩ => hq (e ▸ List.prefix_append _ _)
  exact (henclosed.outside q hout).trans (h.others q hq)

theorem Beside.keep (h : Beside place d d') (hgone : Disk.Gone place d) {q : Place} {item : Item}
    (hitem : d.at? q = some item) : d'.at? q = some item := by
  rw [h.others q fun hq => ?_, hitem]
  obtain ⟨rest, rfl⟩ := hq
  cases (hgone rest).symm.trans hitem

theorem Beside.dirAt_eq (h : Beside place d d') (hgone : Disk.Gone place d)
    (hdir : d.dirAt root = .ok dir) : d'.dirAt root = .ok dir :=
  Disk.dirAt_mono hdir fun _ _ _ => h.keep hgone

theorem Beside.at?_of_pruned (h : Beside place d d') (hgone : Disk.Gone place d)
    (hpruned : Disk.Pruned place d' d'') (q : Place) : d''.at? q = d.at? q := by
  rw [hpruned]
  split
  next hq =>
    obtain ⟨rest, rfl⟩ := hq
    exact (hgone rest).symm
  next hq => exact h.others q hq

end Beside

theorem empty_makeDir {place q : Place} (hgone : Disk.Gone place d) (hplace : place ≠ [])
    (hq : place.Inside q) : ((DiskOp.makeDir place).apply d).at? q = none := by
  obtain ⟨first, rest, rfl⟩ := hq
  rw [DiskOp.at?_apply_makeDir d hplace,
    if_neg fun e => List.cons_ne_nil _ _ (List.append_right_eq_self.1 e)]
  exact hgone (first :: rest)

theorem footing_staging (hdir : d.dirAt root = .ok dir) (hlimits : Disk.WithinLimits root [name])
    (hgone : Disk.Gone (dir ++ [name]) d) :
    ((DiskOp.makeDir (dir ++ [name])).apply d).Footing (OsPath.below root [name])
      (dir ++ [name]) := by
  have hplace : dir ++ [name] ≠ [] := Disk.named_ne_nil _ _
  have hmade := beside_makeDir hplace d
  exact Disk.footing_of_empty (Disk.dirAt_name (hmade.dirAt_eq hgone hdir) hlimits hmade.self)
    fun _ => empty_makeDir hgone hplace

/-- When putting an entry together or installing it fails, what lies beside the staging directory is
as it was. -/
theorem meets_file_failed (h : d'.Footing (OsPath.below c.root [name]) (dir ++ [name]))
    (hbeside : Beside (dir ++ [name]) d d') (hgone : Disk.Gone (dir ++ [name]) d)
    (hname : name ≠ entryName id) (hbypasses : d.Bypasses c.root dir (dir ++ [entryName id])) :
    (do
      stage (OsPath.below c.root [name]) id encoded outputs read
      install (dir ++ [name]) (c.entryDir id) : DiskM CacheError Unit).Meets d'
      fun result d'' => (∃ e, result = .error e) → Beside (dir ++ [name]) d d'' := by
  refine .bind (meets_stage_enclosed h) ?_ fun _ _ henclosed _ =>
    hbeside.trans_enclosed henclosed
  intro _ d₁ henclosed
  have hstaged := hbeside.trans_enclosed henclosed
  have hbypasses := hbypasses.mono
    (Disk.named_ne_nil _ _) fun _ _ _ => hstaged.keep hgone
  refine (meets_install_failed hstaged.self hname hbypasses).mono fun _ d₂ hsame hfailed => ?_
  rw [hsame hfailed]
  exact hstaged

/-- A store that fails has changed nothing. -/
theorem meets_store_failed (h : c.Standing id d) (fp : Fingerprint) (outputs : Outputs)
    (read : RelativePath → Except FsError Bytes) :
    (c.store id fp outputs read).Meets d fun result d' =>
      (∃ e, result = .error e) → ∀ q, d'.at? q = d.at? q := by
  refine .ask_bind (fun encoded _ => ?_) fun _ _ _ _ => rfl
  refine .ask_bind (fun dir hdir => ?_) fun _ _ _ _ => rfl
  have hdir := ok_of_mapError hdir
  refine .disk_bind ?_
  have hgone := (h.tree dir hdir).gone (d.at?_freshName dir ".staging-")
  have hname : OsPath.IsName (d.freshName dir ".staging-") :=
    OsPath.isName_numbered (by decide) (by decide) _
  have hentry : d.freshName dir ".staging-" ≠ entryName id :=
    ne_entryName_of_numbered ⟨_, rfl⟩ id
  generalize d.freshName dir ".staging-" = name at hgone hname hentry ⊢
  refine .ask_bind (fun made hmade => ?_) fun _ _ _ _ => rfl
  obtain ⟨hlimits, rfl⟩ := (Disk.resolve_name_iff hdir hname).1 (ok_of_mapError hmade)
  refine .change_bind ?_
  have hmade := beside_makeDir
    (Disk.named_ne_nil dir name) d
  refine .tryCatch (meets_file_failed (footing_staging hdir hlimits hgone) hmade hgone hentry
    (h.bypasses dir hdir)) (fun _ _ _ ⟨_, he⟩ => nomatch he) ?_
  intro e d₁ hfailed
  have hbeside := hfailed ⟨e, rfl⟩
  exact .ignore_bind (Disk.meets_removeTree_name_ok (hbeside.dirAt_eq hgone hdir) hlimits
    hbeside.self) fun _ _ ⟨_, hpruned⟩ => meets_throw fun _ => hbeside.at?_of_pruned hgone hpruned

/-! ## Roots that are reached through an entry -/

/-- The path to a root by way of the entry of a builder. -/
def detour (root : OsPath) (id : BuilderId) : OsPath := (root.push (entryName id)).child ".."

theorem detour_eq {root : OsPath} (hroot : root ≠ []) (id : BuilderId) :
    detour root id = OsPath.below root [entryName id] ++ OsPath.separator :: [0x2E, 0x2E] := by
  obtain ⟨-, hne, hend⟩ :=
    OsPath.steps_below (List.forall_mem_singleton.2 (isName_entryName id)) hroot
      (List.cons_ne_nil _ _)
  have hbelow : ¬(OsPath.below root [entryName id] = [] ∨
      (OsPath.below root [entryName id]).getLast? = some OsPath.separator) :=
    fun h => h.elim hne hend
  have hdots : OsPath.isAbsolute (Bytes.ofText "..") = false := by decide
  unfold detour OsPath.child
  rw [OsPath.push_eq root, OsPath.push.eq_1, hdots, if_neg Bool.false_ne_true, if_neg hbelow]
  rfl

/-- The path goes into the entry and out again. -/
theorem steps_detour {root : OsPath} (hroot : root ≠ []) (id : BuilderId) :
    detour root id ≠ [] ∧ OsPath.stem (detour root id) = OsPath.steps (detour root id) ∧
      OsPath.steps (detour root id) = OsPath.stem root ++ [.down (entryName id), .up] := by
  obtain ⟨hsteps, -, -⟩ :=
    OsPath.steps_below (List.forall_mem_singleton.2 (isName_entryName id)) hroot
      (List.cons_ne_nil _ _)
  have hend : (detour root id).getLast? ≠ some OsPath.separator := by
    simp [detour_eq hroot, OsPath.separator]
  refine ⟨fun e => ?_, by rw [OsPath.stem, if_neg hend], ?_⟩
  · rw [detour_eq hroot] at e
    exact List.cons_ne_nil _ _ (List.append_eq_nil_iff.1 e).2
  · rw [detour_eq hroot, OsPath.steps_append_separator, hsteps, List.append_assoc]
    rfl

theorem withinLimits_detour {root : OsPath} (hroot : root ≠ [])
    (hroom : root.length + 200 < Disk.pathLimit) {names : List Bytes}
    (hnames : ∀ n ∈ names, Disk.Accepted n) (hsum : (names.map (·.length + 1)).sum ≤ 90) :
    Disk.WithinLimits (detour root id) names := by
  have hentry := length_entryName id
  have hbelow := OsPath.length_below_le (List.forall_mem_singleton.2 (isName_entryName id)) root
  have hlength := congrArg List.length (detour_eq hroot id)
  have hwhole := OsPath.length_below_le (fun n hn => (hnames n hn).toIsName) (detour root id)
  simp only [List.map_singleton, List.sum_singleton, List.length_append, List.length_cons,
    List.length_nil] at hbelow hlength
  exact ⟨hnames, by omega⟩

theorem dirAt_detour (hdir : d.dirAt root = .ok dir)
    (hentry : d.at? (dir ++ [entryName id]) = some .dir)
    (hlength : (detour root id).length < Disk.pathLimit) :
    d.dirAt (detour root id) = .ok dir := by
  obtain ⟨hroot, -⟩ := Disk.dirAt_eq_ok hdir
  obtain ⟨hne, -, hsteps⟩ := steps_detour hroot id
  obtain ⟨m, hwalk⟩ := Disk.walk_of_dirAt hdir
  have hself := Disk.at?_of_dirAt hdir
  have haccepted := accepted_entryName id
  have hlast : d.walk true m dir [.down (entryName id), .up] = .ok ⟨dir, some .dir⟩ := by
    rw [Disk.walk, if_neg (not_not_intro hself)]
    simp only [if_neg (Nat.not_lt.2 haccepted.short), hentry]
    rw [Disk.walk, if_neg (not_not_intro hentry)]
    simp only [List.dropLast_concat]
    rw [Disk.walk, hself]
  have hnul : (0 : UInt8) ∉ detour root id := by
    have hlimits : Disk.WithinLimits root [entryName id] := by
      refine ⟨List.forall_mem_singleton.2 haccepted, Nat.lt_of_le_of_lt ?_ hlength⟩
      rw [detour_eq hroot, List.length_append]
      exact Nat.le_add_right _ _
    rw [detour_eq hroot, List.mem_append]
    exact fun h => h.elim (hlimits.nulFree hdir) (by decide)
  unfold Disk.dirAt Disk.resolve
  rw [if_neg hnul, if_neg hne, if_neg (Nat.not_le.2 hlength), hsteps,
    hwalk true _ (List.cons_ne_nil _ _), hlast]
  rfl

theorem resolve_detour_ne_ok (hdir : d.dirAt root = .ok dir)
    (hnone : d.at? (dir ++ [entryName id]) = none) (hname : OsPath.IsName name)
    (found : Rebuild.Found) :
    d.resolve false (OsPath.below (detour root id) [name]) ≠ .ok found := by
  obtain ⟨hroot, -⟩ := Disk.dirAt_eq_ok hdir
  obtain ⟨hne, hstem, hsteps⟩ := steps_detour hroot id
  obtain ⟨m, hwalk⟩ := Disk.walk_of_dirAt hdir
  have hpath : OsPath.steps (OsPath.below (detour root id) [name]) =
      OsPath.stem root ++ [.down (entryName id), .up, .down name] := by
    rw [(OsPath.steps_below (List.forall_mem_singleton.2 hname) hne (List.cons_ne_nil _ _)).1,
      hstem, hsteps, List.append_assoc]
    rfl
  have hmissing : d.walk false m dir [.down (entryName id), .up, .down name] = .error .missing := by
    rw [Disk.walk, if_neg (not_not_intro (Disk.at?_of_dirAt hdir))]
    simp only [if_neg (Nat.not_lt.2 (accepted_entryName id).short), hnone]
    exact if_neg (List.cons_ne_nil _ _)
  intro hfound
  unfold Disk.resolve at hfound
  rw [hpath, hwalk false _ (List.cons_ne_nil _ _), hmissing] at hfound
  split at hfound
  · cases hfound
  · split at hfound
    · cases hfound
    · split at hfound <;> cases hfound

theorem meets_stage_nothing (h : d.Footing root dir)
    (hempty : ∀ place, dir.Inside place → d.at? place = none)
    (hlimits : ∀ file ∈ [filesName, indexName, fingerprintName], Disk.WithinLimits root [file]) :
    (stage root id encoded ∅ read).Meets d fun result _ => result = .ok () := by
  have hsingle (file : Bytes) : [file] ≠ [] := List.cons_ne_nil _ _
  have hput {d' : Disk} (h' : d'.Footing root dir) {file : String}
      (hfile : Bytes.ofText file ∈ [filesName, indexName, fingerprintName])
      (hfree : d'.at? (dir ++ [Bytes.ofText file]) = none) (content : Bytes) :
      (Disk.writeFile (root.child file) content).Meets d' fun result d'' =>
        result = .ok () ∧ d''.Footing root dir ∧
          ∀ q, q ≠ dir ++ [Bytes.ofText file] → d''.at? q = d'.at? q := by
    rw [OsPath.child_eq]
    refine Disk.meets_writeFile_free h' (hsingle _) (hlimits _ hfile) ?_ hfree content
    rw [List.dropLast_singleton, List.append_nil, h'.at?_dir]
  have hclear : Disk.Clear dir [filesName] d := by
    intro l hl
    rcases List.prefix_cons_iff.1 hl with rfl | ⟨rest, rfl, -⟩
    · exact .inr (by rw [List.append_nil, h.at?_dir])
    · exact .inl (hempty _ ⟨filesName, rest, rfl⟩)
  refine .bind (Disk.meets_makeDirs_ok h (hsingle filesName)
    (hlimits _ List.mem_cons_self) hclear).mapError ?_ ?_
  · rintro _ d₁ ⟨_, -, rfl, hlaid⟩
    have hnone {file : Bytes} (hne : file ≠ filesName) : d₁.at? (dir ++ [file]) = none := by
      rcases hlaid.at?_cases [file] with ⟨hl, -⟩ | ⟨-, hsame⟩
      · exact absurd (List.cons_prefix_cons.1 hl).1 hne
      · rw [hsame, hempty _ ⟨file, [], rfl⟩]
    have h₁ := hlaid.footing h (List.forall_mem_singleton.2 isName_filesName)
    show DiskM.Meets (do
      (Disk.writeFile (root.child "entry.json") _).mapError _
      (Disk.writeFile (root.child "fingerprint.bin") encoded).mapError _) d₁ _
    refine .bind (hput h₁ (by simp [indexName]) (hnone (by decide)) _).mapError ?_ ?_
    · rintro _ d₂ ⟨_, -, rfl, h₂, hsame⟩
      have hfree : d₂.at? (dir ++ [fingerprintName]) = none := by
        rw [hsame _ fun e => ?_, hnone (by decide)]
        exact absurd (List.append_cancel_left e) (by decide)
      refine (hput h₂ (by simp [fingerprintName]) hfree encoded).mapError.mono ?_
      rintro _ d₃ ⟨_, rfl, rfl, -⟩
      rfl
    · rintro e d₂ ⟨_, heq, rfl, -⟩
      cases heq
  · rintro e d₁ ⟨_, heq, rfl, -⟩
    cases heq

/-- Once the old entry is removed, there is no path to the place for the new one. -/
theorem meets_install_lost (hroot : c.root = detour root id)
    (hlimits : Disk.WithinLimits c.root [entryName id]) (hdir : d.dirAt c.root = .ok dir)
    (hbypasses : d.Bypasses root dir (dir ++ [entryName id]))
    (hself : d.at? (dir ++ [entryName id]) = some .dir) (source : Place) :
    (install source (c.entryDir id)).Meets d fun result d' =>
      (∃ e, result = .error e) ∧ d'.dirAt root = .ok dir ∧
        d'.at? (dir ++ [entryName id]) = none := by
  unfold install
  rw [entryDir_eq]
  refine .disk_bind ?_
  dsimp only
  rw [Disk.present_of_dirAt (Disk.dirAt_name hdir hlimits hself), if_pos rfl]
  refine .bind (Disk.meets_removeTree_name_ok hdir hlimits hself).mapError ?_ ?_
  · rintro _ d₁ ⟨_, -, -, hpruned⟩
    have hdir₁ := hbypasses d₁ hpruned
    have hnone : d₁.at? (dir ++ [entryName id]) = none := by
      rw [hpruned, if_pos List.prefix_rfl]
    have hnowhere := resolve_detour_ne_ok hdir₁ hnone (isName_entryName id)
    rw [← hroot] at hnowhere
    refine (Disk.meets_rename_nowhere hnowhere source).mapError.mono ?_
    rintro _ d₂ ⟨_, rfl, ⟨e, rfl⟩, rfl⟩
    exact ⟨⟨_, rfl⟩, hdir₁, hnone⟩
  · rintro e d₁ ⟨_, heq, rfl, -⟩
    cases heq

/-- Where the path to the root leads through the entry, storing nothing fails, and the entry is
gone. -/
theorem meets_store_lost (h : d.Footing root dir) (hroot : c.root = detour root id)
    (hentry : d.at? (dir ++ [entryName id]) = some .dir)
    (hstaging : Disk.Gone (dir ++ [stagingName]) d) (hroom : root.length + 200 < Disk.pathLimit)
    (hencode : fp.encode = .ok encoded) (read : RelativePath → Except FsError Bytes) :
    (c.store id fp ∅ read).Meets d fun result d' =>
      (∃ e, result = .error e) ∧ d'.at? (dir ++ [entryName id]) = none := by
  have hlimits {names : List Bytes} (hnames : ∀ n ∈ names, Disk.Accepted n)
      (hsum : (names.map (·.length + 1)).sum ≤ 90) : Disk.WithinLimits c.root names :=
    hroot ▸ withinLimits_detour h.root_ne_nil hroom hnames hsum
  have hstagingLimits : Disk.WithinLimits c.root [stagingName] :=
    hlimits (List.forall_mem_singleton.2 accepted_stagingName) (by decide)
  have hfile {file : Bytes} (haccepted : Disk.Accepted file)
      (hsum : ([stagingName, file].map (·.length + 1)).sum ≤ 90) :
      Disk.WithinLimits (OsPath.below c.root [stagingName]) [file] := by
    have hnames : ∀ n ∈ [stagingName] ++ [file], Disk.Accepted n :=
      List.forall_mem_cons.2 ⟨accepted_stagingName, List.forall_mem_singleton.2 haccepted⟩
    exact (hlimits hnames hsum).below
  have hrootLimits : Disk.WithinLimits c.root [] := hlimits nofun (by decide)
  have hentryLimits : Disk.WithinLimits c.root [entryName id] := by
    refine hlimits (List.forall_mem_singleton.2 (accepted_entryName id)) ?_
    rw [List.map_singleton, List.sum_singleton, length_entryName]
    decide
  have hdir : d.dirAt c.root = .ok dir :=
    hroot ▸ dirAt_detour h.dirAt_eq hentry (hroot ▸ hrootLimits.fits)
  have hplace (n : Bytes) : dir ++ [n] ≠ [] := Disk.named_ne_nil _ _
  have hmade := beside_makeDir (hplace stagingName) d
  have hfooting := footing_staging hdir hstagingLimits hstaging
  have hfiles : ∀ file ∈ [filesName, indexName, fingerprintName],
      Disk.WithinLimits (OsPath.below c.root [stagingName]) [file] :=
    List.forall_mem_cons.2 ⟨hfile accepted_filesName (by decide), List.forall_mem_cons.2
      ⟨hfile accepted_indexName (by decide),
        List.forall_mem_singleton.2 (hfile accepted_fingerprintName (by decide))⟩⟩
  have henclosed := @meets_stage_enclosed _ _ _ id encoded ∅ read hfooting
  have hstage := henclosed.and (meets_stage_nothing hfooting
    (fun _ => empty_makeDir hstaging (hplace _)) hfiles)
  refine meets_store_staging hdir hstagingLimits hstaging hencode ?_
  refine .tryCatch (p := fun result d₁ => (∃ e, result = .error e) ∧ d₁.dirAt root = .ok dir ∧
    d₁.at? (dir ++ [entryName id]) = none) (.bind hstage ?_ fun _ _ ⟨_, he⟩ => nomatch he)
    (fun _ _ ⟨⟨_, he⟩, _⟩ => nomatch he) ?_
  · rintro _ d₁ ⟨henclosed, -⟩
    have hbeside := hmade.trans_enclosed henclosed
    exact meets_install_lost hroot hentryLimits (hbeside.dirAt_eq hstaging hdir)
      ((h.bypasses (entryName id)).mono (hplace _) fun _ _ _ => hbeside.keep hstaging)
      (hbeside.keep hstaging hentry) _
  · rintro e d₁ ⟨-, hdir₁, hnone⟩
    have hnowhere := resolve_detour_ne_ok hdir₁ hnone accepted_stagingName.toIsName
    rw [← hroot] at hnowhere
    exact .ignore_bind (Disk.meets_removeTree_nowhere hnowhere) fun _ d₂ ⟨_, heq⟩ =>
      meets_throw ⟨⟨e, rfl⟩, by rw [heq, hnone]⟩

end DiskCache

/-! ## Main result -/

namespace MemoryCache

variable {ρ : Type} {id : BuilderId} {fp : Fingerprint} {outputs : Outputs}
  {source : Directory (Site ρ)} {t t' : Traced (Site ρ)} {e : CacheError}

theorem store_failed
    (h : (cache Site.memoryPart).store id fp outputs source t = (.error e, t')) : t' = t := by
  have hget : (get : Action (Site ρ) _) t = (t, t) := rfl
  have hpart : Site.memoryPart.get t.world = t.world.memory := rfl
  unfold cache at h
  simp only [Action.bind_apply, hget, hpart] at h
  cases hstore : t.world.memory.store id fp outputs (source.read · t.world) with
  | error => rw [hstore] at h; exact (congrArg Prod.snd h).symm
  | ok => rw [hstore] at h; cases h

end MemoryCache

/-- A store that fails changes nothing, whatever is stored under which fingerprint and from where.
On the disk all places hold what they held, so the old entry is there and no staging directory is
left; for this the root must hold a tree, and its path must not lead through the entry. In memory
nothing more is asked for. -/
theorem unchanged_of_failed_store {ρ : Type} (id : BuilderId) (fp : Fingerprint) (outputs : Outputs)
    (source : Directory (Site ρ)) (t : Traced (Site ρ)) :
    (∀ c : DiskCache, c.Standing id t.world.disk → ∀ e t',
      (DiskCache.cache Site.diskPart c).store id fp outputs source t = (.error e, t') →
        (∀ place, t'.world.disk.at? place = t.world.disk.at? place) ∧
          t'.world = { t.world with disk := t'.world.disk }) ∧
    ∀ e t', (MemoryCache.cache Site.memoryPart).store id fp outputs source t = (.error e, t') →
      t' = t := by
  refine ⟨fun c h e t' hstored => ?_, fun e t' => MemoryCache.store_failed⟩
  obtain ⟨hresult, hworld⟩ := DiskCache.store_eq c id fp outputs source t
  have hfailed := (DiskCache.meets_store_failed h fp outputs (source.read · t.world)).run
  rw [hstored] at hresult hworld
  rw [hworld]
  exact ⟨hfailed ⟨e, hresult.symm⟩, rfl⟩

namespace Stamp
open DiskCache

/-- The file that is to be stored is gone: the store fails, and what was stored before is there as
it was. -/
theorem unchanged_of_failed_store_unread :
    ∃ (c : DiskCache) (t t' : Traced (Site MemoryDirectory)) (e : CacheError),
      ((DiskCache.cache Site.diskPart c).contains builderId .empty t).1 = true ∧
      (DiskCache.cache Site.diskPart c).store builderId .empty (.ofList [path])
        (Site.elsewhere source) t = (.error e, t') ∧
      (∀ place, t'.world.disk.at? place = t.world.disk.at? place) ∧
      (MemoryCache.cache Site.memoryPart).store builderId .empty (.ofList [path])
        (Site.elsewhere source) t = (.error e, t) := by
  obtain ⟨c, t, hroot, -, hopen, hentry, -⟩ := exists_stored (storable_nothing builderId) rfl
  let emptied : Traced (Site MemoryDirectory) :=
    ⟨{ t.world with rest := ⟨"source", ∅⟩ }, t.log⟩
  let stored := (DiskCache.cache Site.diskPart c).store builderId .empty (.ofList [path])
    (Site.elsewhere source) emptied
  obtain ⟨hdisk, hmemory⟩ := unchanged_of_failed_store builderId .empty (.ofList [path])
    (Site.elsewhere source) emptied
  have hread : MemoryCache.readFiles ((Site.elsewhere source).read · emptied.world)
      (SortedSet.toList (.ofList [path])) = .error (.notFound path) := rfl
  have hfailed := ((store_eq c builderId .empty _ (Site.elsewhere source) emptied).1.trans
    (hopen.store_unread Tally.isPortable_empty (Tally.storable_stamp.of_root hroot) hread).1)
  have hstored : stored = (.error (.artifact builderId (.notFound path)), stored.2) :=
    Prod.ext hfailed rfl
  refine ⟨c, emptied, stored.2, _, ?_, hstored,
    (hdisk c (standing_of_footing hopen.footing _) _ _ hstored).1,
    Prod.ext rfl (hmemory (.artifact builderId (.notFound path)) _ (Prod.ext rfl rfl))⟩
  rw [(contains_eq _ c builderId _ _).1]
  exact answer_eq hopen hentry

/-- Where the path to the root leads through the entry that is replaced, a store fails after the
entry is gone. -/
theorem entry_lost_by_detour :
    ∃ (c : DiskCache) (t t' : Traced (Site MemoryDirectory)) (e : CacheError),
      c.root = detour cache.root builderId ∧
      t.world.disk.dirAt c.root = .ok vault ∧ t.world.disk.Footing cache.root vault ∧
      (DiskCache.cache Site.diskPart c).store builderId .empty ∅ (Site.elsewhere source) t =
        (.error e, t') ∧
      t.world.disk.at? (vault ++ [entryName builderId]) = some .dir ∧
      t'.world.disk.at? (vault ++ [entryName builderId]) = none := by
  obtain ⟨c, t, hroot, -, hopen, hentry, -⟩ := exists_stored (storable_nothing builderId) rfl
  have hfooting := hopen.footing
  rw [hroot] at hfooting
  have hdir : t.world.disk.at? (vault ++ [entryName builderId]) = some .dir :=
    hentry.at?_entry hopen.footing
  obtain ⟨around, haround⟩ : ∃ a : DiskCache, a.root = detour cache.root builderId :=
    ⟨{ c with root := detour cache.root builderId }, rfl⟩
  obtain ⟨hresult, hworld⟩ := store_eq around builderId .empty ∅ (Site.elsewhere source) t
  have hencode : Fingerprint.empty.encode = .ok _ := rfl
  obtain ⟨⟨e, herror⟩, hnone⟩ := (meets_store_lost hfooting haround hdir hopen.staging (by decide)
    hencode ((Site.elsewhere source).read · t.world)).run
  have hlimits : Disk.WithinLimits (detour cache.root builderId) [] :=
    withinLimits_detour hfooting.root_ne_nil (by decide) nofun (by decide)
  refine ⟨around, t, _, e, haround, ?_, hfooting, Prod.ext (hresult.trans herror) rfl, hdir,
    ?_⟩
  · rw [haround]
    exact dirAt_detour hfooting.dirAt_eq hdir hlimits.fits
  · rw [hworld]
    exact hnone

end Stamp

end Rebuild
