import Rebuild.Proofs.Disk.Succeeding

/-!
# What is named in a directory

A path to a directory and one name after it leads to the place of the name, however the
path comes to the directory; it may even go in and out of what the name stands for. So
operations on such paths need no footing, and whether they fail depends on little.

* `Disk.resolve_name_iff`: where a path with a name at its end leads.
* `Disk.Bypasses`: a path that does not need what lies at a place.
* `Disk.footing_of_empty`: an empty directory is a footing.
* `meets_makeDirs_name`, `meets_removeTree_name`, `meets_rename_name_ok`: making, removing
  and renaming by such paths.
-/
namespace Rebuild.Disk
open DiskM

variable {d d' : Disk} {root : OsPath} {dir place : Place} {name : Bytes}

/-! ## Paths with a name at the end -/

theorem walk_name (h : d.dirAt root = .ok dir) (hname : OsPath.IsName name) : ∃ m, ∀ follow,
    d.walk follow linkLimit [] (OsPath.steps (OsPath.below root [name])) =
      d.walk follow m dir [.down name] := by
  obtain ⟨m, hwalk⟩ := walk_of_dirAt h
  refine ⟨m, fun follow => ?_⟩
  rw [(OsPath.steps_below (List.forall_mem_singleton.2 hname) (dirAt_eq_ok h).1
    (List.cons_ne_nil _ _)).1]
  exact hwalk follow _ (List.cons_ne_nil _ _)

/-- A path with a name at its end leads to the place of the name, if it is one that the operating
system takes. -/
theorem resolve_name_iff (h : d.dirAt root = .ok dir) (hname : OsPath.IsName name) {found : Found} :
    d.resolve false (OsPath.below root [name]) = .ok found ↔
      WithinLimits root [name] ∧ found = ⟨dir ++ [name], d.at? (dir ++ [name])⟩ := by
  obtain ⟨m, hwalk⟩ := walk_name h hname
  have hlast : d.walk false m dir [.down name] =
      if nameLimit < name.length then .error .nameTooLong
      else .ok ⟨dir ++ [name], d.at? (dir ++ [name])⟩ := by
    rw [walk, if_neg (not_not_intro (at?_of_dirAt h))]
    dsimp only
    split
    · rfl
    · cases hitem : d.at? (dir ++ [name]) with
      | none => rfl
      | some item => cases item <;> simp [walk, hitem]
  have hne : OsPath.below root [name] ≠ [] :=
    (OsPath.steps_below (List.forall_mem_singleton.2 hname) (dirAt_eq_ok h).1
      (List.cons_ne_nil _ _)).2.1
  constructor
  · intro hresolve
    obtain ⟨hnul, hlength⟩ := accepted_of_resolve hresolve
    unfold resolve at hresolve
    rw [if_neg hnul, if_neg hne, if_neg (Nat.not_le.2 hlength), hwalk, hlast] at hresolve
    split at hresolve
    · cases hresolve
    next hshort =>
      cases hresolve
      have hmem : (0 : UInt8) ∉ name := by
        rw [← OsPath.push_eq] at hnul
        rcases hname.push_eq root with heq | heq <;> rw [heq] at hnul <;> simp_all
      exact ⟨⟨List.forall_mem_singleton.2 ⟨hname, Nat.not_lt.1 hshort, hmem⟩, hlength⟩, rfl⟩
  · rintro ⟨hlimits, rfl⟩
    have hshort := hlimits.short name (List.mem_singleton_self name)
    unfold resolve
    rw [if_neg (hlimits.nulFree h), if_neg hne, if_neg (Nat.not_le.2 hlimits.fits), hwalk, hlast,
      if_neg (Nat.not_lt.2 hshort)]

theorem dirAt_name (h : d.dirAt root = .ok dir) (hlimits : WithinLimits root [name])
    (hself : d.at? (dir ++ [name]) = some .dir) :
    d.dirAt (OsPath.below root [name]) = .ok (dir ++ [name]) := by
  have hname := hlimits.plain name (List.mem_singleton_self name)
  have hshort := hlimits.short name (List.mem_singleton_self name)
  obtain ⟨m, hwalk⟩ := walk_name h hname
  have hlast : d.walk true m dir [.down name] = .ok ⟨dir ++ [name], some .dir⟩ := by
    rw [walk, if_neg (not_not_intro (at?_of_dirAt h))]
    simp only [if_neg (Nat.not_lt.2 hshort), hself]
    rw [walk, hself]
  have hne : OsPath.below root [name] ≠ [] :=
    (OsPath.steps_below (List.forall_mem_singleton.2 hname) (dirAt_eq_ok h).1
      (List.cons_ne_nil _ _)).2.1
  unfold dirAt resolve
  rw [if_neg (hlimits.nulFree h), if_neg hne, if_neg (Nat.not_le.2 hlimits.fits), hwalk, hlast]
  rfl

theorem present_of_dirAt (h : d.dirAt root = .ok dir) : d.present root = true := by
  obtain ⟨found, hfound, hitem⟩ := ok_of_bind h
  unfold present item?
  rw [hfound]
  cases hsome : found.item with
  | none => rw [hsome] at hitem; cases hitem
  | some => simp [Except.toOption, hsome]

theorem footing_of_empty (h : d.dirAt root = .ok dir) (hempty : ∀ place, dir.Inside place →
    d.at? place = none) : d.Footing root dir := by
  refine ⟨anchored_of_flat h fun place hplace => .inl (hempty place hplace), ?_, ?_, ?_⟩
  · intro place target hplace
    rw [hempty place hplace]
    nofun
  · intro names name hsome
    exact absurd (hempty _ (inside_append dir (by simp))) hsome
  · intro name hsome
    exact absurd (hempty _ (inside_append dir (List.cons_ne_nil _ _))) hsome

/-! ## Places that a path does not need -/

/-- A path leads to a directory also when what lies at a place and below it is gone. -/
def Bypasses (root : OsPath) (dir place : Place) (d : Disk) : Prop :=
  ∀ d', Pruned place d d' → d'.dirAt root = .ok dir

/-- Then it leads there as long as everything else is there. -/
theorem Bypasses.dirAt_eq (h : d.Bypasses root dir place) (hplace : place ≠ [])
    (hkeep : ∀ q item, ¬place <+: q → d.at? q = some item → d'.at? q = some item) :
    d'.dirAt root = .ok dir := by
  obtain ⟨-, hpruned⟩ := (meets_removeAt (d := d) hplace).run
  refine dirAt_mono (h _ hpruned) fun q item _ hitem => ?_
  rw [hpruned] at hitem
  split at hitem
  · cases hitem
  next hq => exact hkeep q item hq hitem

theorem Bypasses.mono (h : d.Bypasses root dir place) (hplace : place ≠ [])
    (hkeep : ∀ q item, ¬place <+: q → d.at? q = some item → d'.at? q = some item) :
    d'.Bypasses root dir place := fun d'' hpruned => h.dirAt_eq hplace fun q item hq hitem => by
  rw [hpruned, if_neg hq]
  exact hkeep q item hq hitem

theorem Footing.bypasses (h : d.Footing root dir) (name : Bytes) :
    d.Bypasses root dir (dir ++ [name]) := fun _ hpruned =>
  h.anchored _ (hpruned.agreesOff (List.cons_ne_nil _ _))

/-! ## Making a directory -/

/-- A directory may have been made under a name, where nothing lay; it is there if nothing failed.
-/
structure Named (root : OsPath) (dir : Place) (name : Bytes) (d : Disk)
    (result : Except OsError Unit) (d' : Disk) : Prop where
  footing : d'.Footing root dir
  grew : Grew dir d d'
  made : result = .ok () → d'.at? (dir ++ [name]) = some .dir

/-- There is a directory for the name to lie in. -/
theorem walk_name_ne_missing (h : d.Footing root dir) {n : Nat} :
    d.walk false n dir [.down name] ≠ .error .missing := by
  intro he
  rw [walk, if_neg (not_not_intro h.at?_dir)] at he
  simp only at he
  split at he
  · cases he
  · split at he
    · cases he
    next target hlink => exact h.linkless _ target ⟨name, [], rfl⟩ hlink
    next => rw [walk] at he; cases he

theorem named_makeDir (h : d.Footing root dir) (hname : OsPath.IsName name)
    (hnone : d.at? (dir ++ [name]) = none) (result : Except OsError Unit) :
    Named root dir name d result ((DiskOp.makeDir (dir ++ [name])).apply d) := by
  have hat := DiskOp.at?_apply_makeDir d (named_ne_nil dir name)
  refine ⟨?_, fun q => ?_, fun _ => by rw [hat, if_pos rfl]⟩
  · refine h.put (List.cons_ne_nil _ _) hat (fun _ => Item.noConfusion) ?_ (fun _ => rfl) ?_
    · rw [List.dropLast_singleton, List.append_nil, h.at?_dir]
    · rintro _ ⟨⟩
      exact hname
  · rw [hat]
    split
    next heq => exact .inr ⟨heq ▸ inside_append dir (List.cons_ne_nil _ _), heq ▸ hnone, rfl⟩
    next => exact .inl rfl

/-- Making a directory under a name does not fail for want of the one above. -/
theorem meets_makeDirAt_name (h : d.Footing root dir) (hname : OsPath.IsName name) :
    (makeDirAt (OsPath.stem root ++ [.down name])).Meets d fun result d' =>
      (result = .ok () ∧ Named root dir name d result d') ∨
        ∃ e, result = .error e ∧ e ≠ .missing ∧ d' = d := by
  obtain ⟨m, hwalk⟩ := h.walk_below
  have hwalk : d.walk false linkLimit [] (OsPath.stem root ++ [.down name]) =
      d.walk false m dir ([name].map .down) := hwalk false [name] (List.cons_ne_nil _ _)
  refine .ask_bind (fun found hfound => ?_) fun e he => .inr ⟨e, rfl, ?_, rfl⟩
  · rw [hwalk] at hfound
    obtain ⟨rfl, -⟩ := walk_names h.linkless hfound
    dsimp only
    split
    next => exact meets_throw (.inr ⟨_, rfl, by decide, rfl⟩)
    next hnone => exact meets_change (.inl ⟨rfl, named_makeDir h hname hnone _⟩)
  · rintro rfl
    exact walk_name_ne_missing h (hwalk.symm.trans he)

/-- When that fails, the directory may have been there. -/
theorem meets_ensureDirAt_name (h : d.Footing root dir) (hname : OsPath.IsName name) :
    (ensureDirAt (OsPath.stem root ++ [.down name])).Meets d fun result d' =>
      result ≠ .error .missing ∧ Named root dir name d result d' := by
  obtain ⟨m, hwalk⟩ := h.walk_below
  have hwalk : d.walk true linkLimit [] (OsPath.stem root ++ [.down name]) =
      d.walk true m dir ([name].map .down) := hwalk true [name] (List.cons_ne_nil _ _)
  have hok (e : OsError) : (.ok () : Except OsError Unit) ≠ .error e := by
    intro he
    cases he
  refine .tryCatch (meets_makeDirAt_name h hname) ?_ ?_
  · rintro _ d' (⟨-, hnamed⟩ | ⟨_, heq, -⟩)
    · exact ⟨hok _, hnamed⟩
    · cases heq
  · rintro e d' (⟨heq, -⟩ | ⟨_, heq, he, hd⟩)
    · cases heq
    · cases heq
      subst hd
      refine .attempt_bind (p := fun result d'' => result = d'.walk true linkLimit []
        (OsPath.stem root ++ [.down name]) ∧ d'' = d') (meets_ask ⟨rfl, rfl⟩) ?_
      rintro result d'' ⟨hresult, heq⟩
      subst heq
      split
      next hdir =>
        refine meets_pure ⟨hok _, h, .refl _ _, fun _ => ?_⟩
        cases result with
        | error => cases hdir
        | ok found =>
          rw [hwalk] at hresult
          obtain ⟨rfl, -⟩ := walk_names h.linkless hresult.symm
          exact hdir
      next =>
        exact meets_throw ⟨fun heq => he (Except.error.inj heq), h, .refl _ _,
          fun heq => absurd heq.symm (hok e)⟩

theorem meets_makeDirs_name (h : d.Footing root dir) (hname : OsPath.IsName name) :
    (makeDirs (OsPath.below root [name])).Meets d (Named root dir name d) := by
  have hnothing (e : OsError) : Named root dir name d (.error e) d := ⟨h, .refl _ _, nofun⟩
  have hbelow := OsPath.steps_below (List.forall_mem_singleton.2 hname) h.root_ne_nil
    (List.cons_ne_nil _ _)
  have hsteps : (OsPath.steps (OsPath.trimEnd (OsPath.below root [name]))).reverse =
      .down name :: (OsPath.stem root).reverse := by
    rw [OsPath.trimEnd_eq hbelow.2.2, hbelow.1]
    simp
  have hback : (PathStep.down name :: (OsPath.stem root).reverse).reverse =
      OsPath.stem root ++ [.down name] := by simp
  unfold makeDirs
  rw [hsteps, makeDirsUp, hback]
  dsimp only
  split
  · exact meets_throw (hnothing _)
  · split
    · exact meets_throw (hnothing _)
    · refine .tryCatch (meets_ensureDirAt_name h hname) (fun _ _ hd => hd.2) ?_
      rintro e d' ⟨he, hnamed⟩
      have hother : e ≠ .missing := fun heq => he (heq ▸ rfl)
      rw [if_pos hother]
      exact meets_throw hnamed

/-! ## Removing and renaming -/

/-- Removing what has a name leaves all as it is, or nothing is left there. -/
theorem meets_removeTree_name (h : d.dirAt root = .ok dir) (hname : OsPath.IsName name) :
    (removeTree (OsPath.below root [name])).Meets d fun result d' =>
      ((∃ e, result = .error e) ∧ d' = d) ∨
      (result = .ok () ∧ WithinLimits root [name] ∧ d'.at? (dir ++ [name]) = none ∧
        ∀ q, ¬dir ++ [name] <+: q → d'.at? q = d.at? q) := by
  have hplace : dir ++ [name] ≠ [] := named_ne_nil _ _
  refine .ask_bind (fun found hfound => ?_) fun e _ => .inl ⟨⟨e, rfl⟩, rfl⟩
  obtain ⟨hlimits, rfl⟩ := (resolve_name_iff h hname).1 hfound
  dsimp only
  split
  next =>
    refine (meets_removeAt hplace).mono fun _ d' ⟨hok, hpruned⟩ => .inr ⟨hok, hlimits, ?_, ?_⟩
    · rw [hpruned, if_pos List.prefix_rfl]
    · intro q hq
      rw [hpruned, if_neg hq]
  next =>
    have hat := DiskOp.at?_apply_remove d hplace
    refine meets_change (.inr ⟨rfl, hlimits, by rw [hat, if_pos rfl], fun q hq => ?_⟩)
    have hother : q ≠ dir ++ [name] := fun e => hq (e ▸ List.prefix_rfl)
    rw [hat, if_neg hother]
  next => exact meets_throw (.inl ⟨⟨_, rfl⟩, rfl⟩)
  next => exact meets_throw (.inl ⟨⟨_, rfl⟩, rfl⟩)

theorem meets_removeTree_name_ok (h : d.dirAt root = .ok dir) (hlimits : WithinLimits root [name])
    (hself : d.at? (dir ++ [name]) = some .dir) :
    (removeTree (OsPath.below root [name])).Meets d fun result d' =>
      result = .ok () ∧ Pruned (dir ++ [name]) d d' := by
  have hfound := (resolve_name_iff h (hlimits.plain name (List.mem_singleton_self name))).2
    ⟨hlimits, rfl⟩
  refine .ask_bind (fun found hfound' => ?_) fun e he => by cases hfound.symm.trans he
  cases hfound.symm.trans hfound'
  dsimp only
  rw [hself]
  exact meets_removeAt (named_ne_nil _ _)

theorem meets_removeTree_nowhere {path : OsPath} (h : ∀ found, d.resolve false path ≠ .ok found) :
    (removeTree path).Meets d fun result d' => (∃ e, result = .error e) ∧ d' = d :=
  .ask_bind (fun found hfound => absurd hfound (h found)) fun e _ => ⟨⟨e, rfl⟩, rfl⟩

theorem meets_rename_nowhere {path : OsPath} (h : ∀ found, d.resolve false path ≠ .ok found)
    (source : Place) :
    (rename source path).Meets d fun result d' => (∃ e, result = .error e) ∧ d' = d :=
  .ask_bind (fun found hfound => absurd hfound (h found)) fun e _ => ⟨⟨e, rfl⟩, rfl⟩

theorem meets_rename_failed (source : Place) (target : OsPath) :
    (rename source target).Meets d fun result d' => (∃ e, result = .error e) → d' = d := by
  refine .ask_bind (fun found _ => .disk_bind ?_) fun _ _ _ => rfl
  dsimp only
  split
  · split
    · exact meets_change nofun
    · exact meets_throw fun _ => rfl
  · exact meets_throw fun _ => rfl
  · exact meets_throw fun _ => rfl
  · exact meets_change nofun

theorem meets_rename_name_ok (h : d.dirAt root = .ok dir) (hlimits : WithinLimits root [name])
    (hnone : d.at? (dir ++ [name]) = none) {source : Place} (hsource : d.at? source = some .dir) :
    (rename source (OsPath.below root [name])).Meets d fun result _ => result = .ok () := by
  have hfound := (resolve_name_iff h (hlimits.plain name (List.mem_singleton_self name))).2
    ⟨hlimits, rfl⟩
  refine .ask_bind (fun found hfound' => .disk_bind ?_) fun e he => by cases hfound.symm.trans he
  cases hfound.symm.trans hfound'
  dsimp only
  rw [hsource, hnone]
  exact meets_change rfl

end Rebuild.Disk
