import Rebuild.Proofs.Disk.Proper
import Rebuild.Proofs.Disk.Unmade

/-!
# Making a directory anywhere

A path may go in and out of directories and through links, and may be empty; whatever it is,
when its directory has been made the path leads to one, and nothing was done to a disk but
to put directories into directories.

* `Disk.Leads`: the directory that the names below a path lie in.
* `Leads.resolve_name`: where a path with a name at its end leads.
* `Disk.way_of_walk_none`: a walk that ends where nothing lies goes a way but for the last name.
* `Disk.Made`, `meets_makeDirs_anywhere`: what making a directory does.
-/
namespace Rebuild.Disk
open DiskM

variable {d d' : Disk} {root : OsPath} {dir place here : Place} {name : Bytes}

/-! ## Where a path leads -/

/-- The names below a path lie in a directory. The empty path stands for the one that paths start
from, though no operation takes it by itself. -/
def Leads (root : OsPath) (dir : Place) (d : Disk) : Prop :=
  d.dirAt root = .ok dir ∨ root = [] ∧ dir = []

/-- A path spells a way to a directory, but for steps that stay at its end. -/
theorem Way.dirAt_eq {m k : Nat} {steps : List PathStep} (h : Way d linkLimit [] steps m dir)
    (hsteps : OsPath.steps root = steps ++ List.replicate k .stay) (hroot : root ≠ [])
    (hnul : (0 : UInt8) ∉ root) (hlength : ¬pathLimit ≤ root.length) : d.dirAt root = .ok dir := by
  have hwalk : d.walk true linkLimit [] (OsPath.steps root) = .ok ⟨dir, some .dir⟩ := by
    rw [hsteps]
    cases k with
    | zero => rw [List.replicate_zero, List.append_nil, h.walk_eq]
    | succ k => rw [h.walk_append true (by simp), walk_stays h.finish]
  unfold dirAt resolve
  rw [if_neg hnul, if_neg hroot, if_neg hlength, hwalk]
  rfl

namespace Leads

theorem at?_dir (h : Leads root dir d) : d.at? dir = some .dir := by
  rcases h with h | ⟨-, rfl⟩
  · exact at?_of_dirAt h
  · rfl

theorem mono (h : Leads root dir d)
    (hkeep : ∀ place item, (∀ serial content, item ≠ .file serial content) →
      d.at? place = some item → d'.at? place = some item) : Leads root dir d' :=
  h.imp_left fun h => dirAt_mono h hkeep

theorem walk_below {names : List Bytes} (h : Leads root dir d)
    (hnames : ∀ name ∈ names, OsPath.IsName name) (hne : names ≠ []) : ∃ m, ∀ follow,
    d.walk follow linkLimit [] (OsPath.steps (OsPath.below root names)) =
      d.walk follow m dir (names.map .down) := by
  rcases h with h | ⟨rfl, rfl⟩
  · obtain ⟨m, hwalk⟩ := walk_of_dirAt h
    refine ⟨m, fun follow => ?_⟩
    rw [(OsPath.steps_below hnames (dirAt_eq_ok h).1 hne).1]
    exact hwalk follow _ fun e => hne (List.map_eq_nil_iff.1 e)
  · refine ⟨linkLimit, fun follow => ?_⟩
    rw [OsPath.steps_below_nil hnames hne]

/-- A path with a name at its end leads to the place of the name, if no link is followed there. -/
theorem resolve_name (h : Leads root dir d) (hlimits : WithinLimits root [name]) {follow : Bool}
    (hlink : ∀ target, follow = true → d.at? (dir ++ [name]) ≠ some (.link target)) :
    d.resolve follow (OsPath.below root [name]) = .ok ⟨dir ++ [name], d.at? (dir ++ [name])⟩ := by
  have hshort := hlimits.short name (List.mem_singleton_self name)
  obtain ⟨m, hwalk⟩ := h.walk_below hlimits.plain (List.cons_ne_nil _ _)
  have hwalk : d.walk follow linkLimit [] (OsPath.steps (OsPath.below root [name])) =
      d.walk follow m dir [.down name] := hwalk follow
  have hne := OsPath.below_ne_nil hlimits.plain (List.cons_ne_nil name []) root
  have hnul : (0 : UInt8) ∉ OsPath.below root [name] := by
    rcases h with h | ⟨rfl, -⟩
    · exact hlimits.nulFree h
    · rw [← OsPath.push_eq, OsPath.push_nil_left]
      exact (hlimits.accepted name (List.mem_singleton_self name)).nulFree
  unfold resolve
  rw [if_neg hnul, if_neg hne, if_neg (Nat.not_le.2 hlimits.fits), hwalk, walk,
    if_neg (not_not_intro h.at?_dir)]
  simp only [if_neg (Nat.not_lt.2 hshort)]
  cases hitem : d.at? (dir ++ [name]) with
  | none => simp
  | some item =>
    cases item with
    | link target =>
      have hfollow : follow = false := by
        cases follow with
        | false => rfl
        | true => exact absurd hitem (hlink target rfl)
      simp [hfollow]
    | _ => simp [walk, hitem]

end Leads

/-! ## Walks to where nothing lies -/

/-- A walk that ends where nothing lies goes a way but for the last name. -/
theorem way_of_walk_none (htree : d.IsTree []) {n : Nat} {steps : List PathStep}
    (hhere : d.at? here ≠ none) (h : d.walk false n here steps = .ok ⟨place, none⟩) :
    ∃ init name m dir, steps = init ++ [.down name] ∧ Way d n here init m dir ∧
      place = dir ++ [name] ∧ name.length ≤ nameLimit := by
  fun_induction walk d false n here steps with
  | case1 n here => exact absurd (Found.mk.inj (Except.ok.inj h)).2 hhere
  | case2 => cases h
  | case3 n here rest hdir ih =>
    obtain ⟨init, name, m, dir, rfl, hway, hplace, hshort⟩ := ih hhere h
    exact ⟨.stay :: init, name, m, dir, rfl, .stay (Decidable.not_not.1 hdir) hway, hplace, hshort⟩
  | case4 n here rest hdir ih =>
    have hup : d.at? here.dropLast ≠ none := by
      rw [htree.at?_dropLast hhere]
      exact Option.some_ne_none _
    obtain ⟨init, name, m, dir, rfl, hway, hplace, hshort⟩ := ih hup h
    exact ⟨.up :: init, name, m, dir, rfl, .up (Decidable.not_not.1 hdir) hway, hplace, hshort⟩
  | case5 => cases h
  | case6 n here hdir name hshort next hnone =>
    have hplace := (Found.mk.inj (Except.ok.inj h)).1
    exact ⟨[], name, n, here, rfl, .done (Decidable.not_not.1 hdir), hplace.symm,
      Nat.not_lt.1 hshort⟩
  | case7 => cases h
  | case8 => cases (Found.mk.inj (Except.ok.inj h)).2
  | case9 => cases h
  | case10 here rest hdir name hshort next target hlink hlast n ih =>
    obtain ⟨init, last, m, dir, hsteps, hway, hplace, hlength⟩ := ih (Option.some_ne_none _) h
    have hrest : rest ≠ [] := fun e => hlast ⟨e, rfl⟩
    rw [← List.dropLast_concat_getLast hrest, ← List.append_assoc] at hsteps
    obtain ⟨rfl, hlast⟩ := List.append_inj' hsteps rfl
    refine ⟨.down name :: rest.dropLast, last, m, dir, ?_, ?_, hplace, hlength⟩
    · rw [List.cons_append, ← hlast, List.dropLast_concat_getLast]
    · exact .link (Decidable.not_not.1 hdir) hshort hlink hway
  | case11 n here rest hdir name hshort next item hother hitem ih =>
    obtain ⟨init, last, m, dir, rfl, hway, hplace, hlength⟩ :=
      ih (by rw [hitem]; exact Option.some_ne_none _) h
    have hnext : d.at? next = some .dir := hway.start
    exact ⟨.down name :: init, last, m, dir, rfl,
      .down (Decidable.not_not.1 hdir) hshort hnext hway, hplace, hlength⟩

theorem at?_of_walk_none {follow : Bool} {n : Nat} {steps : List PathStep}
    (h : d.walk follow n here steps = .ok ⟨place, none⟩) : d.at? place = none := by
  fun_induction walk d follow n here steps with
  | case1 n here =>
    obtain ⟨rfl, hnone⟩ := Found.mk.inj (Except.ok.inj h)
    exact hnone
  | case2 => cases h
  | case3 n here rest hdir ih => exact ih h
  | case4 n here rest hdir ih => exact ih h
  | case5 => cases h
  | case6 n here hdir name hshort next hnone =>
    rw [← (Found.mk.inj (Except.ok.inj h)).1]
    exact hnone
  | case7 => cases h
  | case8 => cases (Found.mk.inj (Except.ok.inj h)).2
  | case9 => cases h
  | case10 here rest hdir name hshort next target hlink hlast n ih => exact ih h
  | case11 n here rest hdir name hshort next item hother hitem ih => exact ih h

/-! ## Making directories -/

/-- Directories may have been put into directories, and that is all. -/
structure Made (d d' : Disk) : Prop extends Keeps d d' where
  proper : d'.Proper
  grew : Grew [] d d'
  same : d'.serials = d.serials

theorem Made.refl (h : d.Proper) : Made d d := ⟨.refl, h, .refl _ _, rfl⟩

theorem Made.trans {d'' : Disk} (h : Made d d') (h' : Made d' d'') : Made d d'' :=
  ⟨h.toKeeps.trans h'.toKeeps, h'.proper, h.grew.trans h'.grew, h'.same.trans h.same⟩

/-- The names in some steps can be given to directories. -/
def Nameable (steps : List PathStep) : Prop :=
  ∀ name, .down name ∈ steps → OsPath.IsName name ∧ (0 : UInt8) ∉ name

theorem nameable_steps {p : OsPath} (hnul : (0 : UInt8) ∉ p) : Nameable (OsPath.steps p) := by
  intro name hstep
  obtain ⟨piece, hpiece, heq⟩ := List.mem_map.1 hstep
  unfold OsPath.stepOfPiece at heq
  split at heq
  · cases heq
  next hnostay =>
    split at heq
    · cases heq
    next hdots =>
      cases heq
      obtain ⟨hplain, hsub⟩ := RelativePath.not_mem_of_mem_splitOn hpiece
      exact ⟨⟨fun e => hnostay (.inl e), fun e => hnostay (.inr e), hdots, hplain⟩,
        fun hmem => hnul (hsub _ hmem)⟩

/-- A directory is made at the end of a way, in one that is there. -/
theorem meets_makeDirAt_anywhere (h : d.Proper) {steps : List PathStep} (hsteps : Nameable steps) :
    (makeDirAt steps).Meets d fun result d' => Made d d' ∧
      (result = .ok () → ∃ m dir, Way d' linkLimit [] steps m dir) := by
  refine .ask_bind (fun found hfound => ?_) fun _ _ => ⟨.refl h, nofun⟩
  obtain ⟨place, item⟩ := found
  cases item with
  | some item => exact meets_throw ⟨.refl h, nofun⟩
  | none =>
    have hstart : d.at? [] ≠ none := Option.some_ne_none _
    obtain ⟨init, name, m, dir, rfl, hway, rfl, hshort⟩ :=
      way_of_walk_none h.tree hstart hfound
    have hnone := at?_of_walk_none hfound
    obtain ⟨hname, hnul⟩ := hsteps name (List.mem_append_right _ (List.mem_singleton_self _))
    have hat := DiskOp.at?_apply_makeDir d (named_ne_nil dir name)
    have hmade : Made d ((DiskOp.makeDir (dir ++ [name])).apply d) := by
      refine ⟨keeps_makeDir (named_ne_nil dir name),
        h.makeDir hway.finish ⟨hname, hshort, hnul⟩, fun q => ?_, rfl⟩
      rw [hat]
      split
      next heq => exact .inr ⟨heq ▸ inside_append [] (named_ne_nil dir name), heq ▸ hnone, rfl⟩
      next => exact .inl rfl
    refine meets_change ⟨hmade, fun _ => ⟨m, dir ++ [name], ?_⟩⟩
    have hway := hway.mono fun q item _ hitem => hmade.grew.at?_eq hitem
    have hself : ((DiskOp.makeDir (dir ++ [name])).apply d).at? (dir ++ [name]) = some .dir := by
      rw [hat, if_pos rfl]
    exact hway.append (.down hway.finish (Nat.not_lt.2 hshort) hself (.done hself))

/-- When that fails, there may be a directory already. -/
theorem meets_ensureDirAt_anywhere (h : d.Proper) {steps : List PathStep}
    (hsteps : Nameable steps) :
    (ensureDirAt steps).Meets d fun result d' => Made d d' ∧
      (result = .ok () → ∃ m dir, Way d' linkLimit [] steps m dir) := by
  refine .tryCatch (meets_makeDirAt_anywhere h hsteps) (fun _ _ hd => hd) ?_
  intro e d' ⟨hmade, _⟩
  refine .attempt_bind (p := fun result d'' => d'.walk true linkLimit [] steps = result ∧
    d'' = d') (meets_ask ⟨rfl, rfl⟩) ?_
  rintro result d'' ⟨hresult, rfl⟩
  split
  next hdir =>
    refine meets_pure ⟨hmade, fun _ => ?_⟩
    cases result with
    | error => cases hdir
    | ok found =>
      obtain ⟨m, hway⟩ := way_of_walk hresult hdir
      exact ⟨m, _, hway⟩
  next => exact meets_throw ⟨hmade, nofun⟩

/-- The same for the directories above. -/
theorem meets_makeDirsUp_anywhere {d : Disk} (h : d.Proper) : ∀ {up : List PathStep},
    Nameable up.reverse → (makeDirsUp up).Meets d fun result d' => Made d d' ∧
      (result = .ok () → ∃ m dir, Way d' linkLimit [] up.reverse m dir)
  | [], _ => by
    rw [makeDirsUp]
    exact meets_pure ⟨.refl h, fun _ => ⟨_, _, .done rfl⟩⟩
  | step :: up, hsteps => by
    have hparent : Nameable (parentSteps (step :: up)).reverse := fun name hname => by
      refine hsteps name (List.mem_reverse.2 ?_)
      exact (List.dropWhile_sublist _).subset (List.mem_of_mem_tail
        ((List.dropWhile_sublist _).subset (List.mem_reverse.1 hname)))
    rw [makeDirsUp]
    refine .tryCatch (meets_ensureDirAt_anywhere h hsteps) (fun _ _ hd => hd) ?_
    rintro e d₁ ⟨h₁, -⟩
    dsimp only
    split
    · exact meets_throw ⟨h₁, fun hok => by cases hok⟩
    · refine .bind (meets_makeDirsUp_anywhere h₁.proper hparent) ?_ ?_
      · rintro _ d₂ ⟨h₂, -⟩
        refine (meets_ensureDirAt_anywhere h₂.proper hsteps).mono ?_
        rintro _ d₃ ⟨h₃, hway⟩
        exact ⟨(h₁.trans h₂).trans h₃, hway⟩
      · rintro _ d₂ ⟨h₂, -⟩
        exact ⟨h₁.trans h₂, fun hok => by cases hok⟩
  termination_by up => up.length
  decreasing_by exact length_parentSteps_lt step up

theorem meets_makeDirs_anywhere (h : d.Proper) (root : OsPath) :
    (makeDirs root).Meets d fun result d' => Made d d' ∧
      (result = .ok () → ∃ dir, Leads root dir d') := by
  unfold makeDirs
  dsimp only
  split
  · exact meets_throw ⟨.refl h, nofun⟩
  next hnul =>
    split
    · exact meets_throw ⟨.refl h, nofun⟩
    next hlength =>
      have htrim : OsPath.trimEnd root ⊆ root := fun b hb => List.mem_reverse.1
        ((List.dropWhile_sublist _).subset (List.mem_reverse.1 hb))
      have hsteps := nameable_steps fun hmem => hnul (htrim hmem)
      refine (meets_makeDirsUp_anywhere h (by rwa [List.reverse_reverse])).mono ?_
      intro result d' ⟨hmade, hway⟩
      refine ⟨hmade, fun hok => ?_⟩
      obtain ⟨m, dir, hway⟩ := hway hok
      rw [List.reverse_reverse] at hway
      by_cases hroot : root = []
      · exact ⟨[], .inr ⟨hroot, rfl⟩⟩
      · obtain ⟨k, hstays⟩ := OsPath.steps_eq_trimEnd root
        exact ⟨dir, .inl (hway.dirAt_eq hstays hroot hnul hlength)⟩

end Rebuild.Disk
