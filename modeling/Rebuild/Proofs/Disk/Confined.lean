import Rebuild.Proofs.Disk.Recorded
import Rebuild.Proofs.Disk.Writing

/-!
# Writing one change at a time

When a file is written below a directory with a footing, each change on the way
touches nothing but what lies at or below one name, and leaves the directory with
its footing. So whoever looks in between finds the rest as it was.

* `DiskOp.Within`: changes that touch one place only.
* `Disk.Confined`: changes under one name that keep the footing.
* `makes_makeDirs`, `makes_replaceFile`, `makes_writeFile`: writing makes no others.
-/
namespace Rebuild

namespace DiskOp

/-- The change touches nothing but what lies at a place and below it. -/
def Within (place : Place) : DiskOp → Prop
  | makeDir p => place <+: p
  | makeFile p _ => place <+: p
  | overwrite p _ => place <+: p
  | makeLink p _ => place <+: p
  | remove p => place <+: p
  | move source target => place <+: source ∧ place <+: target

theorem Within.at?_apply {op : DiskOp} {place : Place} (h : op.Within place) (hplace : place ≠ [])
    (d : Disk) {q : Place} (hq : ¬place <+: q) : (op.apply d).at? q = d.at? q := by
  have hne {p : Place} (hp : place <+: p) : p ≠ [] := fun e => hplace (List.prefix_nil.1 (e ▸ hp))
  have hother {p : Place} (hp : place <+: p) : q ≠ p := fun e => hq (e ▸ hp)
  cases op with
  | makeDir p => rw [at?_apply_makeDir d (hne h), if_neg (hother h)]
  | makeFile p content => rw [at?_apply_makeFile d (hne h), if_neg (hother h)]
  | makeLink p target => rw [at?_apply_makeLink d (hne h), if_neg (hother h)]
  | remove p => rw [at?_apply_remove d (hne h), if_neg (hother h)]
  | overwrite p content =>
    cases hitem : d.at? p with
    | none => unfold apply; simp only [hitem]
    | some item =>
      cases item with
      | file serial old => rw [at?_apply_overwrite d (hne h) hitem, if_neg (hother h)]
      | _ => unfold apply; simp only [hitem]
  | move source target =>
    obtain ⟨hsource, htarget⟩ := h
    rw [at?_apply_move_elsewhere d (hne hsource) fun e => hq (htarget.trans e),
      if_neg fun e => hq (hsource.trans e)]

end DiskOp

namespace Disk
open DiskM DiskOp

variable {d : Disk} {root : OsPath} {dir : Place} {first : Bytes} {rest names : List Bytes}

/-- A change under a name that keeps the footing. -/
def Confined (root : OsPath) (dir : Place) (name : Bytes) (d : Disk) (op : DiskOp) : Prop :=
  op.Within (dir ++ [name]) ∧ (op.apply d).Footing root dir

theorem prefix_cons (dir : Place) (first : Bytes) (rest : List Bytes) :
    dir ++ [first] <+: dir ++ first :: rest :=
  (List.prefix_append_right_inj dir).2 (List.cons_prefix_cons.2 ⟨rfl, List.nil_prefix⟩)

/-- An operation that makes at most one change, and none if it fails. -/
def Single (place : Place) {ε α : Type} (result : Except ε α) (ops : List DiskOp) : Prop :=
  ops = [] ∨ (∃ a, result = .ok a) ∧ ∃ op, ops = [op] ∧ op.Within place

theorem Single.nil {place : Place} {ε α : Type} {result : Except ε α} : Single place result [] :=
  .inl rfl

theorem Single.of_within {place : Place} {ε α : Type} {a : α} {op : DiskOp}
    (h : op.Within place) : Single place (.ok a : Except ε α) [op] :=
  .inr ⟨⟨a, rfl⟩, op, rfl, h⟩

/-- If there is at most one change, the footing at the end is the one after it. -/
theorem makes_of_single {ε α : Type} {x : DiskM ε α} {p : Except ε α → Disk → Prop}
    (htraces : x.Traces d (Single (dir ++ [first]))) (hmeets : x.Meets d p)
    (hfooting : ∀ result d', p result d' → d'.Footing root dir) :
    x.Makes d (Confined root dir first) := by
  refine (htraces.and_meets hmeets).mono fun result ops ⟨hops, hp⟩ => ?_
  rcases hops with rfl | ⟨-, op, rfl, hwithin⟩
  · trivial
  · exact ⟨⟨hwithin, hfooting _ _ hp⟩, trivial⟩

/-! ## Making directories -/

theorem traces_makeDirAt (h : d.Footing root dir) :
    (makeDirAt (OsPath.stem root ++ (first :: rest).map .down)).Traces d
      (Single (dir ++ [first])) := by
  obtain ⟨m, hwalk⟩ := h.walk_below
  refine .ask_bind (fun found hfound => ?_) fun _ _ => .nil
  rw [hwalk false _ (List.cons_ne_nil _ _)] at hfound
  obtain ⟨rfl, -⟩ := walk_names h.linkless hfound
  dsimp only
  split
  next => exact traces_throw .nil
  next => exact traces_change (.of_within (prefix_cons dir first rest))

theorem traces_ensureDirAt (h : d.Footing root dir) :
    (ensureDirAt (OsPath.stem root ++ (first :: rest).map .down)).Traces d
      (Single (dir ++ [first])) := by
  refine .tryCatch (traces_makeDirAt h) (fun _ _ hd => hd) ?_
  intro e ops hd
  rcases hd with rfl | ⟨⟨_, heq⟩, -⟩
  · refine .attempt_bind (p := fun _ ops => ops = []) (traces_ask rfl) ?_
    intro found ops heq
    subst heq
    split
    · exact traces_pure .nil
    · exact traces_throw .nil
  · cases heq

theorem makes_ensureDirAt (h : d.Footing root dir) (hrest : rest ≠ []) :
    (ensureDirAt (OsPath.stem root ++ (first :: rest).map .down)).Makes d
      (Confined root dir first) :=
  makes_of_single (traces_ensureDirAt h) (meets_ensureDirAt h hrest) fun _ _ hd => hd.1

theorem makes_ensureDirAt_first (h : d.Footing root dir)
    (hfirst : d.at? (dir ++ [first]) = some .dir) :
    (ensureDirAt (OsPath.stem root ++ [.down first])).Makes d (Confined root dir first) :=
  makes_of_single (@traces_ensureDirAt d root dir first [] h) (meets_ensureDirAt_first h hfirst)
    fun _ _ hd => hd.2 ▸ h

/-- Directories are made one below the other, starting from one that is there. -/
theorem makes_makeDirsUp (h : d.Footing root dir) (hfirst : d.at? (dir ++ [first]) = some .dir)
    (rest : List Bytes) :
    (makeDirsUp ((rest.map .down) ++ .down first :: (OsPath.stem root).reverse)).Makes d
      (Confined root dir first) := by
  have hsteps (l : List Bytes) :
      (l.map PathStep.down ++ PathStep.down first :: (OsPath.stem root).reverse).reverse =
        OsPath.stem root ++ (first :: l.reverse).map .down := by
    simp
  induction rest generalizing d with
  | nil =>
    rw [List.map_nil, List.nil_append, makeDirsUp]
    have hlast := hsteps []
    rw [List.map_nil, List.nil_append] at hlast
    rw [hlast]
    refine .tryCatch (makes_ensureDirAt_first h hfirst) (meets_ensureDirAt_first h hfirst) ?_
    rintro e d' ⟨he, -⟩
    have hne : e ≠ .missing := fun heq => he (heq ▸ rfl)
    rw [if_pos hne]
    exact makes_throw
  | cons last rest ih =>
    rw [List.map_cons, List.cons_append, makeDirsUp]
    have hlast := hsteps (last :: rest)
    rw [List.map_cons, List.cons_append] at hlast
    have hne : (last :: rest).reverse ≠ [] := by simp
    rw [hlast]
    refine .tryCatch (makes_ensureDirAt h hne) (meets_ensureDirAt h hne) ?_
    rintro e d₁ ⟨h₁, hgrew⟩
    dsimp only
    split
    · exact makes_throw
    · have hfirst₁ := hgrew.at?_eq hfirst
      rw [parentSteps_down]
      exact .bind (ih h₁ hfirst₁) (meets_makeDirsUp h₁ hfirst₁ rest)
        fun _ _ hmade => makes_ensureDirAt hmade.1 hne

theorem makes_makeDirs (h : d.Footing root dir) (hfirst : d.at? (dir ++ [first]) = some .dir)
    (hnames : ∀ name ∈ first :: rest, OsPath.IsName name) :
    (makeDirs (OsPath.below root (first :: rest))).Makes d (Confined root dir first) := by
  have hbelow := OsPath.steps_below hnames h.root_ne_nil (List.cons_ne_nil _ _)
  have hsteps : (OsPath.steps (OsPath.trimEnd (OsPath.below root (first :: rest)))).reverse =
      rest.reverse.map .down ++ .down first :: (OsPath.stem root).reverse := by
    rw [OsPath.trimEnd_eq hbelow.2.2, hbelow.1]
    simp
  unfold makeDirs
  rw [hsteps]
  dsimp only
  split
  · exact makes_throw
  · split
    · exact makes_throw
    · exact makes_makeDirsUp h hfirst _

/-! ## Writing files -/

theorem traces_rename (h : d.Footing root dir) (hnames : ∀ name ∈ names, OsPath.IsName name)
    (hne : names ≠ []) (source : Place) :
    (rename source (OsPath.below root names)).Traces d fun result ops =>
      ((∃ e, result = .error e) ∧ ops = []) ∨
        (result = .ok () ∧ ops = [.move source (dir ++ names)]) := by
  refine .ask_bind (fun found hfound => ?_) fun e _ => .inl ⟨⟨e, rfl⟩, rfl⟩
  obtain ⟨rfl, -⟩ := h.resolve_below hnames hne hfound
  refine .disk_bind ?_
  dsimp only
  have hfail (e : OsError) : (throw e : DiskM OsError Unit).Traces d fun result ops =>
      ((∃ e, result = .error e) ∧ ops = []) ∨
        (result = .ok () ∧ ops = [.move source (dir ++ names)]) :=
    traces_throw (.inl ⟨⟨e, rfl⟩, rfl⟩)
  have hmove : (change (.move source (dir ++ names)) : DiskM OsError Unit).Traces d
      fun result ops => ((∃ e, result = .error e) ∧ ops = []) ∨
        (result = .ok () ∧ ops = [.move source (dir ++ names)]) :=
    traces_change (.inr ⟨rfl, rfl⟩)
  split
  · split
    · exact hmove
    · exact hfail _
  · exact hfail _
  · exact hfail _
  · exact hmove

/-- A temporary file is made and takes the place of a file, or it is removed. -/
theorem makes_exchange {dirs : List Bytes} {fresh : Bytes} (h : d.Footing root dir)
    (hnames : ∀ name ∈ first :: rest, OsPath.IsName name) (hfresh : OsPath.IsName fresh)
    (hdir : d.at? (dir ++ first :: dirs) = some .dir)
    (hfree : d.at? (dir ++ (first :: dirs ++ [fresh])) = none) (content : Bytes) :
    (do
      change (.makeFile (dir ++ (first :: dirs ++ [fresh])) content)
      if let .error e ← attempt
          (rename (dir ++ (first :: dirs ++ [fresh])) (OsPath.below root (first :: rest))) then
        change (.remove (dir ++ (first :: dirs ++ [fresh])))
        throw (if e = .nulByte then .invalidArgument else e) : DiskM OsError Unit).Makes d
      (Confined root dir first) := by
  have h₁ := h.makeFile hfresh hdir hfree content
  have hmeets := meets_exchange h (List.cons_ne_nil first rest) hnames hfresh hdir hfree content
  rw [List.cons_append] at h₁ hmeets ⊢
  generalize dirs ++ [fresh] = temporary at h₁ hmeets ⊢
  have hwithin := prefix_cons dir first temporary
  have htraces : (do
      change (.makeFile (dir ++ first :: temporary) content)
      if let .error e ← attempt
          (rename (dir ++ first :: temporary) (OsPath.below root (first :: rest))) then
        change (.remove (dir ++ first :: temporary))
        throw (if e = .nulByte then .invalidArgument else e) : DiskM OsError Unit).Traces d
      fun _ ops => ∃ op,
        ops = [.makeFile (dir ++ first :: temporary) content, op] ∧ op.Within (dir ++ [first]) := by
    refine .change_bind (.attempt_bind (traces_rename h₁ hnames (List.cons_ne_nil _ _) _) ?_)
    intro result ops hrenamed
    rcases hrenamed with ⟨⟨e, rfl⟩, rfl⟩ | ⟨rfl, rfl⟩
    · exact .change_bind (traces_throw ⟨_, rfl, hwithin⟩)
    · exact traces_pure ⟨_, rfl, hwithin, prefix_cons dir first rest⟩
  refine (htraces.and_meets hmeets).mono ?_
  intro result ops ⟨⟨op, hops, hop⟩, hplaced⟩
  subst hops
  exact ⟨⟨hwithin, h₁⟩, ⟨hop, hplaced.footing⟩, trivial⟩

theorem makes_replaceFile {dirs files : List Bytes} (h : d.Footing root dir)
    (hfirst : d.at? (dir ++ [first]) = some .dir)
    (hdirs : ∀ name ∈ first :: dirs, OsPath.IsName name)
    (hfiles : ∀ name ∈ first :: files, OsPath.IsName name) (content : Bytes) :
    (replaceFile (OsPath.below root (first :: dirs)) (OsPath.below root (first :: files))
      content).Makes d (Confined root dir first) := by
  refine .bind (makes_makeDirs h hfirst hdirs) (meets_makeDirs h hfirst hdirs) ?_
  intro _ d₁ ⟨h₁, _⟩
  split
  · exact makes_throw
  refine .ask_bind fun place hplace => ?_
  obtain ⟨rfl, hdir⟩ := h₁.dirAt_below hdirs (List.cons_ne_nil _ _) hplace
  refine .disk_bind ?_
  have hfree := d₁.at?_freshName (dir ++ first :: dirs) ".tmp"
  have hfresh : OsPath.IsName (d₁.freshName (dir ++ first :: dirs) ".tmp") :=
    OsPath.isName_numbered (by decide) (by decide) _
  generalize d₁.freshName (dir ++ first :: dirs) ".tmp" = fresh at hfree hfresh ⊢
  have hplace : dir ++ first :: dirs ++ [fresh] = dir ++ (first :: dirs ++ [fresh]) :=
    List.append_assoc ..
  dsimp only
  rw [hplace] at hfree ⊢
  exact makes_exchange h₁ hfiles hfresh hdir hfree content

theorem makes_writeFile (h : d.Footing root dir)
    (hnames : ∀ name ∈ first :: rest, OsPath.IsName name) (content : Bytes) :
    (writeFile (OsPath.below root (first :: rest)) content).Makes d
      (Confined root dir first) := by
  have hne : first :: rest ≠ [] := List.cons_ne_nil _ _
  refine makes_of_single ?_ (meets_writeFile h hnames hne content) fun _ _ hd => hd.footing
  refine .ask_bind (fun found hfound => ?_) fun _ _ => .nil
  obtain ⟨rfl, -⟩ := h.resolve_below hnames hne hfound
  dsimp only
  split
  next => exact traces_throw .nil
  next => exact traces_change (.of_within (prefix_cons dir first rest))
  next => exact traces_change (.of_within (prefix_cons dir first rest))

end Disk

end Rebuild
