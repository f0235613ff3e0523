import Rebuild.Proofs.Disk.Removing
import Rebuild.Proofs.Disk.Writing

/-!
# Operations that succeed

The operating system takes a path if its names and the path itself are short
enough, and if there is no NUL byte in it. Below a directory with a footing an
operation on such a path succeeds unless something is in the way.

* `Disk.Accepted`, `Disk.WithinLimits`: names and paths that the operating system
  takes.
* `Footing.resolve_eq`, `Footing.read_eq`: they lead where their names say.
* `meets_makeDirs_ok`, `meets_replaceFile_ok`, `meets_writeFile_ok`: writing
  below a directory.
-/
namespace Rebuild.Disk
open DiskM

/-! ## Paths within limits -/

/-- A name that the operating system takes. -/
structure Accepted (name : Bytes) : Prop extends OsPath.IsName name where
  short : name.length ≤ nameLimit
  nulFree : (0 : UInt8) ∉ name

/-- Names below a directory that make a path which the operating system takes. -/
structure WithinLimits (root : OsPath) (names : List Bytes) : Prop where
  accepted : ∀ name ∈ names, Accepted name
  fits : (OsPath.below root names).length < pathLimit

theorem WithinLimits.plain {root : OsPath} {names : List Bytes} (h : WithinLimits root names) :
    ∀ name ∈ names, OsPath.IsName name := fun name hn => (h.accepted name hn).toIsName

theorem WithinLimits.short {root : OsPath} {names : List Bytes} (h : WithinLimits root names) :
    ∀ name ∈ names, name.length ≤ nameLimit := fun name hn => (h.accepted name hn).short

theorem WithinLimits.of_isPrefix {root : OsPath} {names l : List Bytes}
    (h : WithinLimits root names) (hl : l <+: names) : WithinLimits root l := by
  obtain ⟨more, rfl⟩ := hl
  refine ⟨fun name hn => h.accepted name (List.mem_append_left _ hn), ?_⟩
  have hlength := OsPath.sum_le_length_below
    (fun name hn => h.plain name (List.mem_append_right l hn)) (OsPath.below root l)
  rw [OsPath.below_below] at hlength
  exact Nat.lt_of_le_of_lt (Nat.le_trans (Nat.le_add_right _ _) hlength) h.fits

theorem WithinLimits.below {root : OsPath} {names more : List Bytes}
    (h : WithinLimits root (names ++ more)) : WithinLimits (OsPath.below root names) more :=
  ⟨fun name hn => h.accepted name (List.mem_append_right names hn), by
    rw [OsPath.below_below]
    exact h.fits⟩

theorem WithinLimits.nulFree {d : Disk} {root : OsPath} {dir : Place} {names : List Bytes}
    (hlimits : WithinLimits root names) (h : d.dirAt root = .ok dir) :
    (0 : UInt8) ∉ OsPath.below root names := by
  obtain ⟨_, hresolve, -⟩ := ok_of_bind h
  intro hmem
  rcases OsPath.of_mem_below hlimits.plain hmem with hroot | hsep | ⟨name, hname, hmem⟩
  · exact (accepted_of_resolve hresolve).1 hroot
  · exact absurd hsep (by decide)
  · exact (hlimits.accepted name hname).nulFree hmem

/-! ## Walking down -/

theorem walk_down {d : Disk} {follow : Bool} {n : Nat} :
    ∀ {names : List Bytes} {here : Place},
    (∀ place target, here.Inside place → d.at? place ≠ some (.link target)) →
    (∀ name ∈ names, name.length ≤ nameLimit) → d.at? here = some .dir →
    (∀ l, l <+: names.dropLast → d.at? (here ++ l) = some .dir) →
    d.walk follow n here (names.map .down) = .ok ⟨here ++ names, d.at? (here ++ names)⟩
  | [], here, _, _, _, _ => by rw [List.map_nil, walk, List.append_nil]
  | name :: names, here, hlinkless, hshort, hhere, hdirs => by
    obtain ⟨hname, hnames⟩ := List.forall_mem_cons.1 hshort
    have happend (l : List Bytes) : here ++ [name] ++ l = here ++ name :: l :=
      (List.append_cons here name l).symm
    rw [List.map_cons, walk, if_neg (not_not_intro hhere)]
    simp only [if_neg (Nat.not_lt.2 hname)]
    cases names with
    | nil =>
      cases hitem : d.at? (here ++ [name]) with
      | none => rfl
      | some item =>
        cases item with
        | link target => exact absurd hitem (hlinkless _ target ⟨name, [], rfl⟩)
        | _ => simp only [List.map_nil, walk, hitem]
    | cons next rest =>
      rw [List.dropLast_cons_of_ne_nil (List.cons_ne_nil next rest)] at hdirs
      have hdir := hdirs [name] (List.cons_prefix_cons.2 ⟨rfl, List.nil_prefix⟩)
      simp only [hdir]
      rw [walk_down ?_ hnames hdir ?_, happend]
      · intro place target hin
        obtain ⟨first, more, rfl⟩ := hin
        exact hlinkless _ _ ⟨name, first :: more, happend _⟩
      · intro l hl
        rw [happend]
        exact hdirs (name :: l) (List.cons_prefix_cons.2 ⟨rfl, hl⟩)

/-- Walking down names where the directory at the end is missing, and maybe others before it. -/
theorem walk_missing {d : Disk} {follow : Bool} {n : Nat} :
    ∀ {names : List Bytes} {here : Place},
    (∀ name ∈ names, name.length ≤ nameLimit) → d.at? here = some .dir →
    (∀ l, l <+: names.dropLast → d.at? (here ++ l) = none ∨ d.at? (here ++ l) = some .dir) →
    d.at? (here ++ names.dropLast) = none →
    d.walk follow n here (names.map .down) = .error .missing
  | [], here, _, hhere, _, hnone => by
    rw [List.dropLast_nil, List.append_nil, hhere] at hnone
    cases hnone
  | [name], here, _, hhere, _, hnone => by
    rw [List.dropLast_singleton, List.append_nil, hhere] at hnone
    cases hnone
  | name :: next :: rest, here, hshort, hhere, hclear, hnone => by
    obtain ⟨hname, hnames⟩ := List.forall_mem_cons.1 hshort
    have happend (l : List Bytes) : here ++ [name] ++ l = here ++ name :: l :=
      (List.append_cons here name l).symm
    rw [List.dropLast_cons_of_ne_nil (List.cons_ne_nil next rest)] at hclear hnone
    rw [List.map_cons, walk, if_neg (not_not_intro hhere)]
    simp only [if_neg (Nat.not_lt.2 hname)]
    rcases hclear [name] (List.cons_prefix_cons.2 ⟨rfl, List.nil_prefix⟩) with habsent | hdir
    · rw [habsent]
      exact if_neg (List.cons_ne_nil _ _)
    · simp only [hdir]
      refine walk_missing hnames hdir ?_ (by rw [happend, hnone])
      intro l hl
      rw [happend]
      exact hclear (name :: l) (List.cons_prefix_cons.2 ⟨rfl, hl⟩)

section Reaching

variable {d d' : Disk} {root : OsPath} {dir : Place} {names : List Bytes}

theorem Footing.at?_of_isPrefix (h : d.Footing root dir) (hdir : d.at? (dir ++ names) = some .dir)
    {l : List Bytes} (hl : l <+: names) : d.at? (dir ++ l) = some .dir := by
  obtain ⟨more, rfl⟩ := hl
  cases more with
  | nil => rwa [List.append_nil] at hdir
  | cons name rest =>
    have hbelow : d.at? (dir ++ (l ++ name :: rest)) ≠ none := by
      rw [hdir]
      exact Option.some_ne_none _
    exact h.at?_of_below hbelow

theorem Footing.at?_dropLast (h : d.Footing root dir) (hne : names ≠ [])
    (hsome : d.at? (dir ++ names) ≠ none) : d.at? (dir ++ names.dropLast) = some .dir := by
  rw [← List.dropLast_concat_getLast hne] at hsome
  exact h.parent _ _ hsome

/-- A path within the limits leads where its names say, if the directory is there. -/
theorem Footing.resolve_eq (h : d.Footing root dir) (hlimits : WithinLimits root names)
    (hne : names ≠ []) (hparent : d.at? (dir ++ names.dropLast) = some .dir) (follow : Bool) :
    d.resolve follow (OsPath.below root names) = .ok ⟨dir ++ names, d.at? (dir ++ names)⟩ := by
  obtain ⟨hsteps, hpath, -⟩ := OsPath.steps_below hlimits.plain h.root_ne_nil hne
  obtain ⟨m, hwalk⟩ := h.walk_below
  unfold resolve
  rw [if_neg (hlimits.nulFree h.dirAt_eq), if_neg hpath, if_neg (Nat.not_le.2 hlimits.fits), hsteps,
    hwalk follow names hne]
  exact walk_down h.linkless hlimits.short h.at?_dir fun l hl => h.at?_of_isPrefix hparent hl

theorem length_lt_of_read {path : OsPath} {content : Bytes} (h : d.read path = .ok content) :
    path.length < pathLimit := by
  obtain ⟨_, hresolve, -⟩ := ok_of_bind h
  exact (accepted_of_resolve hresolve).2

theorem Footing.read_eq (h : d.Footing root dir) (hlimits : WithinLimits root names)
    (hne : names ≠ []) {serial : Nat} {content : Bytes}
    (hfile : d.at? (dir ++ names) = some (.file serial content)) :
    d.read (OsPath.below root names) = .ok content := by
  have hparent := h.at?_dropLast hne (by rw [hfile]; exact Option.some_ne_none _)
  unfold read
  rw [h.resolve_eq hlimits hne hparent true, hfile]
  rfl

/-! ## Making directories -/

theorem prefix_dropLast {l : List Bytes} (h : l <+: names) (hne : l ≠ names) :
    l <+: names.dropLast := by
  have hnames : names ≠ [] := fun e => hne (by rw [e] at h ⊢; exact List.prefix_nil.1 h)
  rw [← List.dropLast_concat_getLast hnames] at h hne
  exact (List.prefix_concat_iff.1 h).resolve_left hne

/-- Directories are there all the way down some names, and the rest is as it was. -/
structure Laid (dir : Place) (names : List Bytes) (d d' : Disk) : Prop where
  way : ∀ l, l <+: names → d'.at? (dir ++ l) = some .dir
  others : ∀ q, (∀ l, l <+: names → q ≠ dir ++ l) → d'.at? q = d.at? q

/-- Nothing but directories lies on the way down some names. -/
def Clear (dir : Place) (names : List Bytes) (d : Disk) : Prop :=
  ∀ l, l <+: names → d.at? (dir ++ l) = none ∨ d.at? (dir ++ l) = some .dir

theorem Clear.dropLast (h : Clear dir names d) : Clear dir names.dropLast d := fun l hl =>
  h l (hl.trans (List.dropLast_prefix names))

theorem Laid.trans {d'' : Disk} {more : List Bytes} (h : Laid dir names d d')
    (h' : Laid dir more d' d'') (hmore : names <+: more) : Laid dir more d d'' := by
  refine ⟨h'.way, fun q hq => ?_⟩
  rw [h'.others q hq]
  exact h.others q fun l hl => hq l (hl.trans hmore)

theorem Laid.at?_cases (h : Laid dir names d d') (l : List Bytes) :
    (l <+: names ∧ d'.at? (dir ++ l) = some .dir) ∨
      (¬l <+: names ∧ d'.at? (dir ++ l) = d.at? (dir ++ l)) := by
  by_cases hl : l <+: names
  · exact .inl ⟨hl, h.way l hl⟩
  · exact .inr ⟨hl, h.others _ fun l' hl' e => hl (List.append_cancel_left e ▸ hl')⟩

theorem Laid.footing (hlaid : Laid dir names d d') (h : d.Footing root dir)
    (hnames : ∀ name ∈ names, OsPath.IsName name) : d'.Footing root dir := by
  refine ⟨h.anchored.of_agreesOff ?_, ?_, ?_, ?_⟩
  · intro q hq
    by_cases hself : q = dir
    · have := hlaid.way [] List.nil_prefix
      rw [hself, h.at?_dir]
      rwa [List.append_nil] at this
    · refine hlaid.others q fun l _ e => ?_
      cases l with
      | nil => exact hself (e.trans (List.append_nil dir))
      | cons name rest => exact hq ⟨name, rest, e⟩
  · intro q target hq
    obtain ⟨name, rest, rfl⟩ := hq
    rcases hlaid.at?_cases (name :: rest) with ⟨-, hdir⟩ | ⟨-, hsame⟩
    · rw [hdir]
      nofun
    · rw [hsame]
      exact h.linkless _ target ⟨name, rest, rfl⟩
  · intro l name hsome
    rcases hlaid.at?_cases l with ⟨-, hdir⟩ | ⟨hl, hsame⟩
    · exact hdir
    · rcases hlaid.at?_cases (l ++ [name]) with ⟨hlast, -⟩ | ⟨-, hsame'⟩
      · exact absurd ((List.prefix_append l [name]).trans hlast) hl
      · rw [hsame'] at hsome
        rw [hsame]
        exact h.parent l name hsome
  · intro name hsome
    rcases hlaid.at?_cases [name] with ⟨hfirst, -⟩ | ⟨-, hsame⟩
    · exact hnames name (hfirst.subset (List.mem_singleton_self name))
    · rw [hsame] at hsome
      exact h.named name hsome

theorem Footing.walk_eq (h : d.Footing root dir) (hne : names ≠ [])
    (hshort : ∀ name ∈ names, name.length ≤ nameLimit) (hclear : Clear dir names.dropLast d)
    (follow : Bool) :
    d.walk follow linkLimit [] (OsPath.stem root ++ names.map .down) =
      if d.at? (dir ++ names.dropLast) = some .dir then
        .ok ⟨dir ++ names, d.at? (dir ++ names)⟩
      else .error .missing := by
  obtain ⟨m, hwalk⟩ := h.walk_below
  rw [hwalk follow names hne]
  split
  next hparent =>
    exact walk_down h.linkless hshort h.at?_dir fun l hl => h.at?_of_isPrefix hparent hl
  next hparent =>
    exact walk_missing hshort h.at?_dir hclear ((hclear _ List.prefix_rfl).resolve_right hparent)

theorem Footing.resolve_of_clear (h : d.Footing root dir) (hne : names ≠ [])
    (hlimits : WithinLimits root names) (hclear : Clear dir names.dropLast d) (follow : Bool) :
    d.resolve follow (OsPath.below root names) =
      if d.at? (dir ++ names.dropLast) = some .dir then
        .ok ⟨dir ++ names, d.at? (dir ++ names)⟩
      else .error .missing := by
  obtain ⟨hsteps, hpath, -⟩ := OsPath.steps_below hlimits.plain h.root_ne_nil hne
  unfold resolve
  rw [if_neg (hlimits.nulFree h.dirAt_eq), if_neg hpath, if_neg (Nat.not_le.2 hlimits.fits), hsteps]
  exact h.walk_eq hne hlimits.short hclear follow

theorem meets_ensureDirAt_missing {steps : List PathStep}
    (hwalk : ∀ follow, d.walk follow linkLimit [] steps = .error .missing) :
    (ensureDirAt steps).Meets d fun result d' => result = .error .missing ∧ d' = d := by
  have hmake : (makeDirAt steps).Meets d fun result d' => result = .error .missing ∧ d' = d := by
    refine .ask_bind (fun found hfound => ?_) fun e he => ?_
    · cases (hwalk false).symm.trans hfound
    · cases (hwalk false).symm.trans he
      exact ⟨rfl, rfl⟩
  refine .tryCatch hmake (fun _ _ ⟨heq, _⟩ => nomatch heq) ?_
  intro e d' ⟨he, heq⟩
  subst heq
  cases he
  refine .attempt_bind (p := fun result d'' => result = .error .missing ∧ d'' = d')
    (meets_ask ⟨hwalk true, rfl⟩) ?_
  intro result d'' ⟨hresult, heq⟩
  subst hresult heq
  exact meets_throw ⟨rfl, rfl⟩

theorem meets_ensureDirAt_ok (h : d.Footing root dir) (hne : names ≠ [])
    (hshort : ∀ name ∈ names, name.length ≤ nameLimit) (hclear : Clear dir names d) :
    (ensureDirAt (OsPath.stem root ++ names.map .down)).Meets d fun result d' =>
      if d.at? (dir ++ names.dropLast) = some .dir then result = .ok () ∧ Laid dir names d d'
      else result = .error .missing ∧ d' = d := by
  have hwalk := h.walk_eq hne hshort hclear.dropLast
  have hplace : dir ++ names ≠ [] := List.append_ne_nil_of_right_ne_nil _ hne
  by_cases hparent : d.at? (dir ++ names.dropLast) = some .dir
  · simp only [if_pos hparent] at hwalk ⊢
    have hway {d' : Disk} (hself : d'.at? (dir ++ names) = some .dir)
        (hothers : ∀ q, q ≠ dir ++ names → d'.at? q = d.at? q) : Laid dir names d d' := by
      refine ⟨fun l hl => ?_, fun q hq => hothers q (hq names List.prefix_rfl)⟩
      by_cases heq : l = names
      · rw [heq, hself]
      · rw [hothers _ fun e => heq (List.append_cancel_left e)]
        exact h.at?_of_isPrefix hparent (prefix_dropLast hl heq)
    have hmake : (makeDirAt (OsPath.stem root ++ names.map .down)).Meets d fun result d' =>
        (result = .ok () ∧ Laid dir names d d') ∨
          ((∃ e, result = .error e) ∧ d.at? (dir ++ names) = some .dir ∧ d' = d) := by
      refine .ask_bind (fun found hfound => ?_) fun e he => ?_
      · cases (hwalk false).symm.trans hfound
        dsimp only
        cases hitem : d.at? (dir ++ names) with
        | some item =>
          rcases hclear names List.prefix_rfl with hnone | hdir
          · cases hnone.symm.trans hitem
          · exact meets_throw (.inr ⟨⟨_, rfl⟩, hitem.symm.trans hdir, rfl⟩)
        | none =>
          have hat := DiskOp.at?_apply_makeDir d hplace
          exact meets_change (.inl ⟨rfl, hway (by rw [hat, if_pos rfl]) fun q hq => by
            rw [hat, if_neg hq]⟩)
      · cases (hwalk false).symm.trans he
    refine .tryCatch hmake (fun _ _ hd => ?_) fun e d' hd => ?_
    · exact hd.resolve_right fun ⟨⟨_, heq⟩, _⟩ => nomatch heq
    · rcases hd with ⟨heq, -⟩ | ⟨-, hdir, rfl⟩
      · cases heq
      · refine .attempt_bind (p := fun result d'' => result = .ok ⟨dir ++ names, some .dir⟩ ∧
          d'' = d') (meets_ask ⟨by rw [hwalk true, hdir], rfl⟩) ?_
        intro result d'' ⟨hresult, heq⟩
        subst hresult heq
        exact meets_pure ⟨rfl, hway hdir fun _ _ => rfl⟩
  · simp only [if_neg hparent] at hwalk ⊢
    exact meets_ensureDirAt_missing hwalk

/-- A directory is made, and first the one above it if that is missing. -/
theorem meets_makeDirsUp_cons {last : Bytes} {rest : List Bytes} (h : d.Footing root dir)
    (hlimits : WithinLimits root (last :: rest).reverse)
    (hclear : Clear dir (last :: rest).reverse d)
    (habove : d.at? (dir ++ rest.reverse) ≠ some .dir →
      (makeDirsUp
        (parentSteps (.down last :: (rest.map .down ++ (OsPath.stem root).reverse)))).Meets
        d fun result d' => result = .ok () ∧ Laid dir rest.reverse d d') :
    (makeDirsUp ((last :: rest).map .down ++ (OsPath.stem root).reverse)).Meets d fun result d' =>
      result = .ok () ∧ Laid dir (last :: rest).reverse d d' := by
  have hne : (last :: rest).reverse ≠ [] := by simp
  have hsteps : (PathStep.down last :: (rest.map .down ++ (OsPath.stem root).reverse)).reverse =
      OsPath.stem root ++ (last :: rest).reverse.map .down := by simp
  have hup : (last :: rest).reverse.dropLast = rest.reverse := by simp
  have hbelow : rest.reverse <+: (last :: rest).reverse := hup ▸ List.dropLast_prefix _
  have hensure := meets_ensureDirAt_ok h hne hlimits.short hclear
  rw [List.map_cons, List.cons_append, makeDirsUp, hsteps]
  by_cases hparent : d.at? (dir ++ rest.reverse) = some .dir
  · simp only [hup, if_pos hparent] at hensure
    exact .tryCatch hensure (fun _ _ hd => hd) fun _ _ hd => by cases hd.1
  · simp only [hup, if_neg hparent] at hensure
    refine .tryCatch hensure (fun _ _ hd => by cases hd.1) ?_
    rintro e d' ⟨he, heq⟩
    subst heq
    cases he
    dsimp only
    rw [if_neg (not_not_intro rfl)]
    refine .bind (habove hparent) ?_ fun _ _ hd => by cases hd.1
    rintro _ d₁ ⟨-, hlaid⟩
    have hclear₁ : Clear dir (last :: rest).reverse d₁ := fun l hl => by
      rcases hlaid.at?_cases l with ⟨-, hdir⟩ | ⟨-, hsame⟩
      · exact .inr hdir
      · rw [hsame]
        exact hclear l hl
    have hensure₁ := meets_ensureDirAt_ok (hlaid.footing h (hlimits.of_isPrefix hbelow).plain) hne
      hlimits.short hclear₁
    simp only [hup, if_pos (hlaid.way _ List.prefix_rfl)] at hensure₁
    exact hensure₁.mono fun _ d₂ hd => ⟨hd.1, hlaid.trans hd.2 hbelow⟩

theorem meets_makeDirsUp_ok {last : Bytes} {rest : List Bytes} (h : d.Footing root dir)
    (hlimits : WithinLimits root (last :: rest).reverse)
    (hclear : Clear dir (last :: rest).reverse d) :
    (makeDirsUp ((last :: rest).map .down ++ (OsPath.stem root).reverse)).Meets d fun result d' =>
      result = .ok () ∧ Laid dir (last :: rest).reverse d d' := by
  induction rest generalizing last with
  | nil =>
    refine meets_makeDirsUp_cons h hlimits hclear fun hparent => ?_
    rw [List.reverse_nil, List.append_nil] at hparent
    exact absurd h.at?_dir hparent
  | cons next rest ih =>
    have hbelow : (next :: rest).reverse <+: (last :: next :: rest).reverse := by
      rw [@List.reverse_cons _ last]
      exact List.prefix_append _ _
    exact meets_makeDirsUp_cons h hlimits hclear fun _ =>
      ih (hlimits.of_isPrefix hbelow) fun l hl => hclear l (hl.trans hbelow)

theorem meets_makeDirs_ok (h : d.Footing root dir) (hne : names ≠ [])
    (hlimits : WithinLimits root names) (hclear : Clear dir names d) :
    (makeDirs (OsPath.below root names)).Meets d fun result d' =>
      result = .ok () ∧ Laid dir names d d' := by
  obtain ⟨hsteps, -, hend⟩ := OsPath.steps_below hlimits.plain h.root_ne_nil hne
  obtain ⟨last, rest, hrev⟩ := List.exists_cons_of_ne_nil (List.reverse_ne_nil_iff.2 hne)
  have hnames : names = (last :: rest).reverse := by rw [← hrev, List.reverse_reverse]
  have hup : (OsPath.steps (OsPath.trimEnd (OsPath.below root names))).reverse =
      (last :: rest).map .down ++ (OsPath.stem root).reverse := by
    rw [OsPath.trimEnd_eq hend, hsteps, List.reverse_append, ← List.map_reverse, hrev]
  unfold makeDirs
  rw [hup]
  dsimp only
  rw [if_neg (hlimits.nulFree h.dirAt_eq), if_neg (Nat.not_le.2 hlimits.fits)]
  rw [hnames] at hlimits hclear ⊢
  exact meets_makeDirsUp_ok h hlimits hclear

/-! ## Writing files -/

/-- A renaming succeeds if the directory for it is there and the place is not taken by another one.
-/
theorem meets_rename_ok (h : d.Footing root dir) (hne : names ≠ [])
    (hlimits : WithinLimits root names) {source : Place} {item : Item}
    (hsource : d.at? source = some item) (hvacant : Vacant dir names item d)
    (hkind : item = .dir → d.at? (dir ++ names) = none ∨ d.at? (dir ++ names) = some .dir) :
    (rename source (OsPath.below root names)).Meets d fun result d' =>
      result = .ok () ∧ d' = (DiskOp.move source (dir ++ names)).apply d := by
  refine .ask_bind ?_ fun e he => ?_
  · intro found hfound
    cases (h.resolve_eq hlimits hne hvacant.parent false).symm.trans hfound
    refine .disk_bind ?_
    dsimp only
    rw [hsource]
    split
    next heq hdir =>
      have hbelow : d.below (dir ++ names) = [] := by
        refine List.eq_nil_iff_forall_not_mem.2 fun e he => ?_
        obtain ⟨hrest, hitem⟩ := mem_below.1 (show (e.1, e.2) ∈ _ from he)
        cases (hvacant.clear _ (inside_append _ hrest)).symm.trans hitem
      rw [if_pos hbelow]
      exact meets_change ⟨rfl, rfl⟩
    next other hdir heq hitem =>
      cases heq
      rcases hkind rfl with hnone | hsome
      · cases hnone.symm.trans hitem
      · exact absurd (Option.some.inj (hitem.symm.trans hsome)) hdir
    next hdir hother => exact absurd (congrArg some (hvacant.keep hdir)) hother
    next => exact meets_change ⟨rfl, rfl⟩
  · cases (h.resolve_eq hlimits hne hvacant.parent false).symm.trans he

theorem meets_exchange_ok {dirs : List Bytes} {fresh : Bytes} (h : d.Footing root dir)
    (hne : names ≠ []) (hlimits : WithinLimits root names) (hfresh : OsPath.IsName fresh)
    (hdir : d.at? (dir ++ dirs) = some .dir)
    (hfree : d.at? (dir ++ (dirs ++ [fresh])) = none)
    (hparent : d.at? (dir ++ names.dropLast) = some .dir)
    (hfile : d.at? (dir ++ names) ≠ some .dir) (content : Bytes) :
    (do
      change (.makeFile (dir ++ (dirs ++ [fresh])) content)
      if let .error e ← attempt (rename (dir ++ (dirs ++ [fresh])) (OsPath.below root names)) then
        change (.remove (dir ++ (dirs ++ [fresh])))
        throw (if e = .nulByte then .invalidArgument else e) : DiskM OsError Unit).Meets d
      fun result _ => result = .ok () := by
  have h₁ := h.makeFile hfresh hdir hfree content
  have hlong : dirs ++ [fresh] ≠ [] := List.append_ne_nil_of_right_ne_nil _ (List.cons_ne_nil _ _)
  generalize dirs ++ [fresh] = temporary at hfree h₁ hlong ⊢
  have hmade := DiskOp.at?_apply_makeFile d (List.append_ne_nil_of_right_ne_nil dir hlong) content
  refine .change_bind ?_
  generalize (DiskOp.makeFile (dir ++ temporary) content).apply d = d₁ at hmade h₁ ⊢
  have hfile₁ : d₁.at? (dir ++ names) ≠ some .dir := by
    rw [hmade]
    split
    · nofun
    · exact hfile
  have hparent₁ : d₁.at? (dir ++ names.dropLast) = some .dir := by
    rw [hmade, if_neg fun e => ?_, hparent]
    rw [e, hfree] at hparent
    cases hparent
  have hvacant : Vacant dir names (.file d.serials content) d₁ :=
    ⟨hparent₁, fun e => absurd e hfile₁, fun _ hplace => h₁.at?_eq_none hfile₁ hplace⟩
  refine .attempt_bind (meets_rename_ok h₁ hne hlimits (by rw [hmade, if_pos rfl]) hvacant nofun) ?_
  intro result d₂ ⟨hok, _⟩
  subst hok
  exact meets_pure rfl

/-- A file is there with directories on the way to it, and the rest is as it was. -/
structure Written (dir : Place) (names : List Bytes) (content : Bytes) (d d' : Disk) : Prop where
  file : ∃ serial, d'.at? (dir ++ names) = some (.file serial content)
  way : ∀ l, l <+: names.dropLast → d'.at? (dir ++ l) = some .dir
  others : ∀ q, (∀ l, l <+: names → q ≠ dir ++ l) → d'.at? q = d.at? q

theorem Written.at?_cases {content : Bytes} (h : Written dir names content d d')
    (l : List Bytes) :
    (l <+: names.dropLast ∧ d'.at? (dir ++ l) = some .dir) ∨
      (l = names ∧ ∃ serial, d'.at? (dir ++ l) = some (.file serial content)) ∨
      (¬l <+: names ∧ d'.at? (dir ++ l) = d.at? (dir ++ l)) := by
  by_cases hl : l <+: names
  · by_cases heq : l = names
    · exact .inr (.inl ⟨heq, heq ▸ h.file⟩)
    · have hl := prefix_dropLast hl heq
      exact .inl ⟨hl, h.way l hl⟩
  · exact .inr (.inr ⟨hl, h.others _ fun l' hl' e => hl (List.append_cancel_left e ▸ hl')⟩)

/-- All is there for a file to be put below a directory: the directory for it, by a path of its own,
and no directory in its place. -/
structure Ready (root parent : OsPath) (dir : Place) (names : List Bytes) (d : Disk) : Prop where
  footing : d.Footing root dir
  parent : d.dirAt parent = .ok (dir ++ names.dropLast)
  free : d.at? (dir ++ names) ≠ some .dir

/-- Writing a file by way of a temporary one succeeds once all is there, if the path of the
temporary file is not too long. -/
theorem meets_replaceFile_ready {parent : OsPath} {p : Disk → Prop} (hne : names ≠ [])
    (hlimits : WithinLimits root names)
    (hroom : parent.length + 1 + temporaryLength < pathLimit)
    (hmake : (makeDirs parent).Meets d fun result d₁ =>
      result = .ok () ∧ Ready root parent dir names d₁ ∧ p d₁) (content : Bytes) :
    (replaceFile parent (OsPath.below root names) content).Meets d fun result d₂ =>
      result = .ok () ∧ ∃ d₁, p d₁ ∧ Placed root dir names content d₁ result d₂ := by
  refine .bind hmake ?_ fun _ _ hd => nomatch hd.1
  intro _ d₁ ⟨_, hready, hp⟩
  have hparent := at?_of_dirAt hready.parent
  rw [if_neg (Nat.not_le.2 hroom)]
  refine .ask_bind (fun place hplace => ?_) fun e he => by cases hready.parent.symm.trans he
  cases hready.parent.symm.trans hplace
  refine .disk_bind ?_
  have hfree := d₁.at?_freshName (dir ++ names.dropLast) ".tmp"
  have hfresh : OsPath.IsName (d₁.freshName (dir ++ names.dropLast) ".tmp") :=
    OsPath.isName_numbered (by decide) (by decide) _
  generalize d₁.freshName (dir ++ names.dropLast) ".tmp" = fresh at hfree hfresh ⊢
  dsimp only
  rw [List.append_assoc] at hfree ⊢
  have h := hready.footing
  exact ((meets_exchange h hne hlimits.plain hfresh hparent hfree content).and
    (meets_exchange_ok h hne hlimits hfresh hparent hfree hparent hready.free content)).mono
    fun _ _ ⟨hplaced, hok⟩ => ⟨hok, d₁, hp, hplaced⟩

theorem ne_of_isPrefix_dropLast (hne : names ≠ []) {l : List Bytes} (hl : l <+: names.dropLast) :
    l ≠ names := by
  intro e
  have hlength := hl.length_le
  rw [e, List.length_dropLast] at hlength
  have := List.length_pos_iff.2 hne
  omega

theorem Laid.written {d'' : Disk} {content : Bytes} (hlaid : Laid dir names.dropLast d d')
    (hne : names ≠ []) (hplaced : Placed root dir names content d' (.ok ()) d'') :
    Written dir names content d d'' := by
  refine ⟨hplaced.written rfl, ?_, ?_⟩
  · intro l hl
    rcases hplaced.others (dir ++ l) with hsame | ⟨heq, -⟩
    · exact hsame.trans (hlaid.way l hl)
    · exact absurd (List.append_cancel_left heq) (ne_of_isPrefix_dropLast hne hl)
  · intro q hq
    rcases hplaced.others q with hsame | ⟨heq, -⟩
    · exact hsame.trans (hlaid.others q fun l hl =>
        hq l (hl.trans (List.dropLast_prefix names)))
    · exact absurd heq (hq names List.prefix_rfl)

/-- Where directories were made down to the one for a file, all is there for the file. -/
theorem Laid.ready {parent : OsPath} (hlaid : Laid dir names.dropLast d d') (h : d.Footing root dir)
    (hne : names ≠ []) (hnames : ∀ name ∈ names, OsPath.IsName name)
    (hparent : d'.dirAt parent = .ok (dir ++ names.dropLast))
    (hfile : d.at? (dir ++ names) ≠ some .dir) : Ready root parent dir names d' := by
  refine ⟨hlaid.footing h fun n hn => hnames n (List.dropLast_subset _ hn), hparent, ?_⟩
  rcases hlaid.at?_cases names with ⟨hl, -⟩ | ⟨-, hsame⟩
  · exact absurd rfl (ne_of_isPrefix_dropLast hne hl)
  · rwa [hsame]

theorem Laid.dirAt_eq (hlaid : Laid dir names d d') (h : d.Footing root dir) (hne : names ≠ [])
    (hlimits : WithinLimits root names) :
    d'.dirAt (OsPath.below root names) = .ok (dir ++ names) := by
  have h' := hlaid.footing h hlimits.plain
  have hself := hlaid.way names List.prefix_rfl
  have habove := h'.at?_dropLast hne (by rw [hself]; exact Option.some_ne_none _)
  unfold dirAt
  rw [h'.resolve_eq hlimits hne habove true, hself]
  rfl

/-- Writing a file in a directory below succeeds if no file is in the way of the directories, and
no directory in the way of the file. -/
theorem meets_replaceFile_ok (h : d.Footing root dir) (hlong : 1 < names.length)
    (hlimits : WithinLimits root names)
    (hroom : (OsPath.below root names.dropLast).length + 1 + temporaryLength < pathLimit)
    (hclear : Clear dir names.dropLast d) (hfile : d.at? (dir ++ names) ≠ some .dir)
    (content : Bytes) :
    (replaceFile (OsPath.below root names.dropLast) (OsPath.below root names) content).Meets d
      fun result d' => result = .ok () ∧ d'.Footing root dir ∧ Written dir names content d d' := by
  have hne : names ≠ [] := fun e => by
    rw [e] at hlong
    cases hlong
  have hdirs : names.dropLast ≠ [] := fun e => by
    have := congrArg List.length e
    rw [List.length_dropLast, List.length_nil] at this
    omega
  have hbelow := hlimits.of_isPrefix (List.dropLast_prefix names)
  have hmake : (makeDirs (OsPath.below root names.dropLast)).Meets d fun result d₁ =>
      result = .ok () ∧ Ready root (OsPath.below root names.dropLast) dir names d₁ ∧
        Laid dir names.dropLast d d₁ :=
    (meets_makeDirs_ok h hdirs hbelow hclear).mono fun _ _ ⟨hok, hlaid⟩ =>
      ⟨hok, hlaid.ready h hne hlimits.plain (hlaid.dirAt_eq h hdirs hbelow) hfile, hlaid⟩
  refine (meets_replaceFile_ready hne hlimits hroom hmake content).mono ?_
  rintro _ d₂ ⟨rfl, d₁, hlaid, hplaced⟩
  exact ⟨rfl, hplaced.footing, hlaid.written hne hplaced⟩

theorem meets_writeFile_ok (h : d.Footing root dir) (hne : names ≠ [])
    (hlimits : WithinLimits root names) (hparent : d.at? (dir ++ names.dropLast) = some .dir)
    (hfile : d.at? (dir ++ names) ≠ some .dir) (content : Bytes) :
    (writeFile (OsPath.below root names) content).Meets d fun result _ => result = .ok () := by
  have hresolve := h.resolve_eq hlimits hne hparent true
  refine .ask_bind (fun found hfound => ?_) fun e he => by cases hresolve.symm.trans he
  cases hresolve.symm.trans hfound
  dsimp only
  split
  next hdir => exact absurd hdir hfile
  next => exact meets_change rfl
  next => exact meets_change rfl

theorem meets_writeFile_free (h : d.Footing root dir) (hne : names ≠ [])
    (hlimits : WithinLimits root names) (hparent : d.at? (dir ++ names.dropLast) = some .dir)
    (hfree : d.at? (dir ++ names) = none) (content : Bytes) :
    (writeFile (OsPath.below root names) content).Meets d fun result d' =>
      result = .ok () ∧ d'.Footing root dir ∧ ∀ q, q ≠ dir ++ names → d'.at? q = d.at? q := by
  refine ((meets_writeFile h hlimits.plain hne content).and
    (meets_writeFile_ok h hne hlimits hparent (by rw [hfree]; nofun) content)).mono ?_
  intro result d' ⟨hplaced, hok⟩
  exact ⟨hok, hplaced.footing, fun q hq => (hplaced.others q).resolve_right fun hw => hq hw.1⟩

/-! ## Removing -/

theorem meets_removeTree_ok (h : d.Footing root dir) (hne : names ≠ [])
    (hlimits : WithinLimits root names) (hdir : d.at? (dir ++ names) = some .dir) :
    (removeTree (OsPath.below root names)).Meets d fun result d' =>
      result = .ok () ∧ Pruned (dir ++ names) d d' := by
  have hparent := h.at?_dropLast hne (by rw [hdir]; exact Option.some_ne_none _)
  have hresolve := h.resolve_eq hlimits hne hparent false
  refine .ask_bind (fun found hfound => ?_) fun e he => by cases hresolve.symm.trans he
  cases hresolve.symm.trans hfound
  dsimp only
  rw [hdir]
  exact meets_removeAt (List.append_ne_nil_of_right_ne_nil dir hne)

theorem Footing.present_eq (h : d.Footing root dir) (hne : names ≠ [])
    (hlimits : WithinLimits root names) (hparent : d.at? (dir ++ names.dropLast) = some .dir) :
    d.present (OsPath.below root names) = (d.at? (dir ++ names)).isSome := by
  unfold present item?
  rw [h.resolve_eq hlimits hne hparent true]
  rfl

end Reaching

end Rebuild.Disk
