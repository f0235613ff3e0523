import Mathlib.Data.List.TakeWhile
import Rebuild.Proofs.Disk.Member
import Rebuild.Proofs.Path.Rooted

/-!
# Directories that are still missing

A directory need not be there before something is put below it. As long as it is
missing, paths below it lead nowhere, and making a directory below it makes it first, so
that all is as if it had been there and empty.

* `OsPath.trimStays_cases`, `Disk.dirAt_trimStays`: paths that end in steps that stay.
* `Disk.walk_of_nowhere`: a walk does not go on where a path leads nowhere.
* `Disk.Unmade`: a missing directory that can be made.
* `Unmade.resolve_eq`, `Unmade.meets_makeDirs`: paths below it.
* `Disk.unmade_below`: most missing directories can be made.
-/
namespace Rebuild

/-! ## Paths that end in steps that stay -/

namespace OsPath

/-- A trimmed path ends in a step that leads elsewhere, unless the path has no such steps. -/
theorem trimStays_cases (p : OsPath) :
    (trimStays p = p ∧ ∃ n, steps p = List.replicate n .stay) ∨
      ∃ up step, steps (trimStays p) = up ++ [step] ∧ step ≠ .stay := by
  unfold trimStays
  dsimp only
  generalize hpieces : (p.splitOn separator).reverse.dropWhile (stepOfPiece · == .stay) = pieces
  cases pieces with
  | nil =>
    refine .inl ⟨if_pos rfl, _, List.eq_replicate_iff.2 ⟨rfl, fun step hstep => ?_⟩⟩
    obtain ⟨piece, hpiece, rfl⟩ := List.mem_map.1 hstep
    simpa using List.dropWhile_eq_nil_iff.1 hpieces piece (List.mem_reverse.2 hpiece)
  | cons piece up =>
    have hplain : ∀ l ∈ (piece :: up).reverse, separator ∉ l := fun l hl => by
      have hmem := (List.dropWhile_sublist _).subset (hpieces ▸ List.mem_reverse.1 hl)
      exact (RelativePath.not_mem_of_mem_splitOn (List.mem_reverse.1 hmem)).1
    have hlast := List.head?_dropWhile_not (stepOfPiece · == .stay) (p.splitOn separator).reverse
    rw [hpieces] at hlast
    refine .inr ⟨up.reverse.map stepOfPiece, stepOfPiece piece, ?_, ?_⟩
    · rw [if_neg (List.cons_ne_nil _ _)]
      unfold steps
      rw [List.splitOn_intercalate _ hplain (by simp), List.reverse_cons, List.map_append]
      rfl
    · simpa using hlast

theorem trimStays_sublist (p : OsPath) : (trimStays p).Sublist p := by
  unfold trimStays
  dsimp only
  split
  · exact List.Sublist.refl p
  · have hpieces := ((p.splitOn separator).reverse.dropWhile_sublist
      (stepOfPiece · == .stay)).reverse
    rw [List.reverse_reverse] at hpieces
    have hbytes := @sublist_intercalate _ [separator] _ _ hpieces
    rwa [List.intercalate_splitOn] at hbytes

end OsPath

namespace Disk
open DiskM

variable {d d' : Disk} {root : OsPath} {dir : Place} {names : List Bytes}

theorem dirAt_trimStays (h : d.dirAt root = .ok dir) : d.dirAt root.trimStays = .ok dir := by
  obtain ⟨hne, m, hway⟩ := dirAt_eq_ok h
  obtain ⟨found, hresolve, -⟩ := ok_of_bind h
  obtain ⟨hnul, hlength⟩ := accepted_of_resolve hresolve
  have hsublist := OsPath.trimStays_sublist root
  have htrimmed : root.trimStays ≠ [] := by
    rcases OsPath.trimStays_cases root with ⟨heq, -⟩ | ⟨up, step, hsteps, hstep⟩
    · rwa [heq]
    · intro e
      rw [e] at hsteps
      have hmem : step ∈ [PathStep.stay] := by
        rw [show [PathStep.stay] = up ++ [step] from hsteps]
        exact List.mem_append_right _ (List.mem_singleton_self step)
      exact hstep (List.mem_singleton.1 hmem)
  obtain ⟨k, hsteps⟩ := OsPath.steps_eq_trimStays root
  rw [hsteps] at hway
  unfold dirAt resolve
  rw [if_neg fun hmem => hnul (hsublist.subset hmem), if_neg htrimmed,
    if_neg (Nat.not_le.2 (Nat.lt_of_le_of_lt hsublist.length_le hlength)),
    hway.of_append_stay.walk_eq]
  rfl

/-! ## Walks that lead nowhere -/

/-- A walk ends for want of a directory, or where nothing lies. -/
def Nowhere (result : Except OsError Found) : Prop :=
  result = .error .missing ∨ ∃ place, result = .ok ⟨place, none⟩

theorem walk_stays (hhere : d.at? dir = some .dir) (n k : Nat) :
    d.walk true n dir (List.replicate k .stay) = .ok ⟨dir, some .dir⟩ := by
  induction k with
  | zero => rw [List.replicate_zero, walk, hhere]
  | succ k ih => rw [List.replicate_succ, walk, if_neg (not_not_intro hhere), ih]

theorem somewhere_of_file {here : Place} {n serial : Nat} {content : Bytes}
    (hfile : d.at? here = some (.file serial content)) (steps : List PathStep) :
    ¬Nowhere (d.walk true n here steps) := by
  rintro (h | ⟨_, h⟩) <;> cases steps with
  | nil =>
    rw [walk, hfile] at h
    cases h
  | cons step steps =>
    have hnot : d.at? here ≠ some .dir := by
      rw [hfile]
      intro hdir
      cases hdir
    rw [walk.eq_def] at h
    dsimp only at h
    rw [if_pos hnot] at h
    cases h

theorem walk_of_nowhere (htree : d.IsTree []) {follow : Bool} {n k : Nat} {here : Place}
    {steps more : List PathStep} (hhere : d.at? here = some .dir)
    (h : Nowhere (d.walk true n here (steps ++ List.replicate k .stay))) (hmore : more ≠ []) :
    d.walk follow n here (steps ++ more) = .error .missing := by
  fun_induction walk d true n here steps with
  | case1 n here =>
    rw [List.nil_append, walk_stays hhere] at h
    rcases h with h | ⟨_, h⟩ <;> cases h
  | case2 n here step rest hnot => exact absurd hhere hnot
  | case3 n here rest hdir ih =>
    rw [List.cons_append, walk, if_neg hdir] at h ⊢
    exact ih hhere h
  | case4 n here rest hdir ih =>
    rw [List.cons_append, walk, if_neg hdir] at h ⊢
    have hsome : d.at? here ≠ none := by
      rw [hhere]
      exact Option.some_ne_none _
    exact ih (htree.at?_dropLast hsome) h
  | case5 n here rest hdir name hlong =>
    rw [List.cons_append, walk, if_neg hdir] at h
    simp only [if_pos hlong] at h
    rcases h with h | ⟨_, h⟩ <;> cases h
  | case6 n here hdir name hshort next hnone =>
    have hnone : d.at? (here ++ [name]) = none := hnone
    rw [List.cons_append, walk, if_neg hdir]
    simp only [if_neg hshort, hnone, List.nil_append, if_neg hmore]
  | case7 n here rest hdir name hshort next hnone hrest =>
    have hnone : d.at? (here ++ [name]) = none := hnone
    rw [List.cons_append, walk, if_neg hdir]
    simp only [if_neg hshort, hnone, if_neg fun e => hrest (List.append_eq_nil_iff.1 e).1]
  | case8 n here rest hdir name hshort next target hlink hlast => cases hlast.2
  | case9 here rest hdir name hshort next target hlink hlast =>
    have hlink : d.at? (here ++ [name]) = some (.link target) := hlink
    rw [List.cons_append, walk, if_neg hdir] at h
    simp only [if_neg hshort, hlink, if_neg fun e : _ ∧ true = false => Bool.noConfusion e.2] at h
    rcases h with h | ⟨_, h⟩ <;> cases h
  | case10 here rest hdir name hshort next target hlink hlast n ih =>
    have hlink : d.at? (here ++ [name]) = some (.link target) := hlink
    rw [List.cons_append, walk, if_neg hdir] at h ⊢
    simp only [if_neg hshort, hlink, if_neg fun e : _ ∧ true = false => Bool.noConfusion e.2] at h
    simp only [if_neg hshort, hlink,
      if_neg fun e : rest ++ more = [] ∧ _ => hmore (List.append_eq_nil_iff.1 e.1).2]
    rw [← List.append_assoc] at h ⊢
    exact ih rfl h
  | case11 n here rest hdir name hshort next item hother hitem ih =>
    have hitem : d.at? (here ++ [name]) = some item := hitem
    rw [List.cons_append, walk, if_neg hdir] at h ⊢
    cases item with
    | link target => exact absurd rfl (hother target)
    | dir =>
      simp only [if_neg hshort, hitem] at h ⊢
      exact ih hitem h
    | file serial content =>
      simp only [if_neg hshort, hitem] at h
      exact absurd h (somewhere_of_file hitem _)

/-! ## Missing directories -/

/-- A directory is missing, but it can be made, and is empty then. -/
structure Unmade (root : OsPath) (dir : Place) (d : Disk) : Prop where
  tree : d.IsTree []
  missing : d.dirAt root = .error .missing
  makes : (makeDirs root.trimStays).Meets d fun result d' => result = .ok () ∧
    d'.dirAt root = .ok dir ∧ ∀ place, dir.Inside place → d'.at? place = none

/-- Directories were made below one that is new. -/
def MadeNew (root : OsPath) (dir : Place) (names : List Bytes) (d : Disk) : Prop :=
  ∃ d₀, d₀.dirAt root = .ok dir ∧ (∀ place, dir.Inside place → d₀.at? place = none) ∧
    Laid dir names d₀ d

namespace Unmade

theorem root_ne_nil (h : Unmade root dir d) : root ≠ [] := (dirAt_eq_ok h.makes.run.2.1).1

/-- The path itself is one that the operating system takes. -/
theorem nowhere (h : Unmade root dir d) :
    (0 : UInt8) ∉ root ∧ root.length < pathLimit ∧
      Nowhere (d.walk true linkLimit [] (OsPath.steps root)) := by
  have hmissing := h.missing
  unfold dirAt resolve at hmissing
  rw [if_neg h.root_ne_nil] at hmissing
  split at hmissing
  · cases hmissing
  next hnul =>
    split at hmissing
    · cases hmissing
    next hlength =>
      refine ⟨hnul, Nat.not_le.1 hlength, ?_⟩
      generalize d.walk true linkLimit [] (OsPath.steps root) = result at hmissing ⊢
      cases result with
      | error e =>
        cases hmissing
        exact .inl rfl
      | ok found =>
        obtain ⟨place, item⟩ := found
        cases item with
        | none => exact .inr ⟨place, rfl⟩
        | some item => cases item <;> cases hmissing

theorem walk_eq (h : Unmade root dir d) (hne : names ≠ []) (follow : Bool) :
    d.walk follow linkLimit [] (OsPath.stem root ++ names.map .down) = .error .missing := by
  obtain ⟨-, -, hnowhere⟩ := h.nowhere
  obtain ⟨k, hsteps⟩ := OsPath.steps_eq_stem root
  rw [hsteps] at hnowhere
  exact walk_of_nowhere h.tree rfl hnowhere fun e => hne (List.map_eq_nil_iff.1 e)

theorem nulFree (h : Unmade root dir d) (hlimits : WithinLimits root names) :
    (0 : UInt8) ∉ OsPath.below root names := by
  intro hmem
  rcases OsPath.of_mem_below hlimits.plain hmem with hroot | hsep | ⟨name, hname, hmem⟩
  · exact h.nowhere.1 hroot
  · exact absurd hsep (by decide)
  · exact (hlimits.accepted name hname).nulFree hmem

theorem resolve_eq (h : Unmade root dir d) (hne : names ≠ []) (hlimits : WithinLimits root names)
    (follow : Bool) : d.resolve follow (OsPath.below root names) = .error .missing := by
  obtain ⟨hsteps, hpath, -⟩ := OsPath.steps_below hlimits.plain h.root_ne_nil hne
  unfold resolve
  rw [if_neg (h.nulFree hlimits), if_neg hpath, if_neg (Nat.not_le.2 hlimits.fits), hsteps]
  exact h.walk_eq hne follow

theorem dirAt_eq (h : Unmade root dir d) (hne : names ≠ [])
    (hplain : ∀ name ∈ names, OsPath.IsName name) :
    ∃ e, d.dirAt (OsPath.below root names) = .error e := by
  obtain ⟨hsteps, hpath, -⟩ := OsPath.steps_below hplain h.root_ne_nil hne
  unfold dirAt resolve
  rw [if_neg hpath, hsteps, h.walk_eq hne]
  split
  · exact ⟨_, rfl⟩
  · split
    · exact ⟨_, rfl⟩
    · exact ⟨_, rfl⟩

theorem parentSteps_eq (h : Unmade root dir d) (name : Bytes) :
    parentSteps (.down name :: (OsPath.stem root).reverse) =
      (OsPath.steps (OsPath.trimEnd root.trimStays)).reverse := by
  have hdrop (l : List PathStep) (n : Nat) :
      (l ++ List.replicate n PathStep.stay).reverse.dropWhile (· == PathStep.stay) =
        l.reverse.dropWhile (· == PathStep.stay) := by
    rw [List.reverse_append, List.reverse_replicate]
    exact List.dropWhile_append_of_pos fun step hstep => by
      rw [List.eq_of_mem_replicate hstep]
      rfl
  obtain ⟨k, hstem⟩ := OsPath.steps_eq_stem root
  obtain ⟨n, htrimmed⟩ := OsPath.steps_eq_trimStays root
  show (OsPath.stem root).reverse.dropWhile (· == .stay) = _
  rw [← hdrop _ k, ← hstem, htrimmed, hdrop]
  rcases OsPath.trimStays_cases root with ⟨-, m, hstays⟩ | ⟨up, step, hsteps, hstep⟩
  · -- a root that only stays is not missing
    have hnowhere := h.nowhere.2.2
    rw [hstays, walk_stays rfl] at hnowhere
    rcases hnowhere with e | ⟨_, e⟩ <;> cases e
  · have hend : root.trimStays.getLast? ≠ some OsPath.separator := by
      intro e
      obtain ⟨rest, hrest⟩ := List.getLast?_eq_some_iff.1 e
      rw [hrest, OsPath.steps_append_separator] at hsteps
      exact hstep (List.singleton_inj.1 (List.append_inj_right' hsteps rfl)).symm
    rw [OsPath.trimEnd_eq hend, hsteps, List.reverse_concat,
      List.dropWhile_cons_of_neg (by simpa using hstep)]

theorem meets_makeRoot (h : Unmade root dir d) :
    (makeDirsUp (OsPath.steps (OsPath.trimEnd root.trimStays)).reverse).Meets d fun result d' =>
      result = .ok () ∧ MadeNew root dir [] d' := by
  obtain ⟨hnul, hlength, -⟩ := h.nowhere
  have hsublist := OsPath.trimStays_sublist root
  have hmakes := h.makes
  unfold makeDirs at hmakes
  dsimp only at hmakes
  rw [if_neg fun hmem => hnul (hsublist.subset hmem),
    if_neg (Nat.not_le.2 (Nat.lt_of_le_of_lt hsublist.length_le hlength))] at hmakes
  refine hmakes.mono fun _ d' ⟨hok, hroot, hempty⟩ => ⟨hok, d', hroot, hempty, ?_, fun _ _ => rfl⟩
  intro l hl
  rw [List.prefix_nil.1 hl, List.append_nil, at?_of_dirAt hroot]

theorem meets_makeDirsUp_cons (h : Unmade root dir d) {last : Bytes} {rest : List Bytes}
    (hlimits : WithinLimits root (last :: rest).reverse)
    (habove : (makeDirsUp (parentSteps
      (.down last :: (rest.map .down ++ (OsPath.stem root).reverse)))).Meets d fun result d' =>
        result = .ok () ∧ MadeNew root dir rest.reverse d') :
    (makeDirsUp ((last :: rest).map .down ++ (OsPath.stem root).reverse)).Meets d fun result d' =>
      result = .ok () ∧ MadeNew root dir (last :: rest).reverse d' := by
  have hne : (last :: rest).reverse ≠ [] := by simp
  have hsteps : (PathStep.down last :: (rest.map .down ++ (OsPath.stem root).reverse)).reverse =
      OsPath.stem root ++ (last :: rest).reverse.map .down := by simp
  have hbelow : rest.reverse <+: (last :: rest).reverse := by
    rw [List.reverse_cons]
    exact List.prefix_append _ _
  rw [List.map_cons, List.cons_append, makeDirsUp, hsteps]
  refine .tryCatch (meets_ensureDirAt_missing (h.walk_eq hne)) (fun _ _ hd => by cases hd.1) ?_
  rintro e d' ⟨he, heq⟩
  subst heq
  cases he
  dsimp only
  rw [if_neg (not_not_intro rfl)]
  refine .bind habove ?_ fun _ _ hd => by cases hd.1
  rintro _ d₁ ⟨-, d₀, hroot, hempty, hlaid⟩
  have h₁ := hlaid.footing (footing_of_empty hroot hempty) (hlimits.of_isPrefix hbelow).plain
  have hclear : Clear dir (last :: rest).reverse d₁ := by
    intro l hl
    rcases hlaid.at?_cases l with ⟨-, hdir⟩ | ⟨hother, hsame⟩
    · exact .inr hdir
    · refine .inl (hsame.trans (hempty _ (inside_append dir fun e => hother ?_)))
      rw [e]
      exact List.nil_prefix
  have hup : (last :: rest).reverse.dropLast = rest.reverse := by simp
  have hensure := meets_ensureDirAt_ok h₁ hne hlimits.short hclear
  simp only [hup, if_pos (hlaid.way _ List.prefix_rfl)] at hensure
  refine hensure.mono ?_
  rintro _ d₂ ⟨hok, hlaid₂⟩
  exact ⟨hok, d₀, hroot, hempty, hlaid.trans hlaid₂ hbelow⟩

theorem meets_makeDirsUp (h : Unmade root dir d) {last : Bytes} {rest : List Bytes}
    (hlimits : WithinLimits root (last :: rest).reverse) :
    (makeDirsUp ((last :: rest).map .down ++ (OsPath.stem root).reverse)).Meets d fun result d' =>
      result = .ok () ∧ MadeNew root dir (last :: rest).reverse d' := by
  induction rest generalizing last with
  | nil =>
    refine h.meets_makeDirsUp_cons hlimits ?_
    rw [List.map_nil, List.nil_append, h.parentSteps_eq]
    exact h.meets_makeRoot
  | cons next rest ih =>
    refine h.meets_makeDirsUp_cons hlimits (ih (hlimits.of_isPrefix ?_))
    rw [@List.reverse_cons _ last]
    exact List.prefix_append _ _

/-- Making a directory below makes the root, too. -/
theorem meets_makeDirs (h : Unmade root dir d) (hne : names ≠ [])
    (hlimits : WithinLimits root names) :
    (makeDirs (OsPath.below root names)).Meets d fun result d' =>
      result = .ok () ∧ MadeNew root dir names d' := by
  obtain ⟨hsteps, -, hend⟩ := OsPath.steps_below hlimits.plain h.root_ne_nil hne
  obtain ⟨last, rest, hrev⟩ := List.exists_cons_of_ne_nil (List.reverse_ne_nil_iff.2 hne)
  have hnames : names = (last :: rest).reverse := by rw [← hrev, List.reverse_reverse]
  have hup : (OsPath.steps (OsPath.trimEnd (OsPath.below root names))).reverse =
      (last :: rest).map .down ++ (OsPath.stem root).reverse := by
    rw [OsPath.trimEnd_eq hend, hsteps, List.reverse_append, ← List.map_reverse, hrev]
  unfold makeDirs
  rw [hup]
  dsimp only
  rw [if_neg (h.nulFree hlimits), if_neg (Nat.not_le.2 hlimits.fits)]
  rw [hnames] at hlimits ⊢
  exact h.meets_makeDirsUp hlimits

end Unmade

/-- A directory that is missing below one that is there, with nothing in the way. -/
theorem unmade_below {base : OsPath} (h : d.Footing base dir) (htree : d.IsTree [])
    (hne : names ≠ []) (hlimits : WithinLimits base names) (hclear : Clear dir names d)
    (hnone : d.at? (dir ++ names) = none) : Unmade (OsPath.below base names) (dir ++ names) d := by
  refine ⟨htree, ?_, ?_⟩
  · have hresolve := h.resolve_of_clear hne hlimits hclear.dropLast true
    unfold dirAt
    split at hresolve
    · rw [hresolve, hnone]
      rfl
    · rw [hresolve]
      rfl
  · have htrim : (OsPath.below base names).trimStays = OsPath.below base names := by
      rw [← List.dropLast_concat_getLast hne, ← OsPath.below_below]
      exact OsPath.trimStays_push (hlimits.plain _ (List.getLast_mem hne)) _
    rw [htrim]
    refine (meets_makeDirs_ok h hne hlimits hclear).mono fun _ d' ⟨hok, hlaid⟩ =>
      ⟨hok, hlaid.dirAt_eq h hne hlimits, fun place hplace => ?_⟩
    have hempty := h.at?_eq_none (by rw [hnone]; nofun) hplace
    obtain ⟨name, rest, rfl⟩ := hplace
    refine (hlaid.others _ fun l hl e => ?_).trans hempty
    have hlength := congrArg List.length e
    have hshort := hl.length_le
    simp only [List.length_append, List.length_cons] at hlength
    omega

end Disk

end Rebuild
