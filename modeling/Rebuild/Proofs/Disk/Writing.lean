import Rebuild.Proofs.Disk.Changes
import Rebuild.Proofs.Disk.Footing
import Rebuild.Proofs.Disk.Meets

/-!
# Writing below a directory

Operations on paths of names below a directory with a footing change nothing but
what their names say, whether they succeed or fail.

* `Disk.Wrote`: a file was written, perhaps with new directories on the way.
* `meets_makeDirs`, `meets_replaceFile`, `meets_writeFile`: what they write.
-/
namespace Rebuild.Disk
open DiskM

/-- Below a place directories were made where nothing lay, and a file may have been written. -/
def Wrote (place file : Place) (content : Bytes) (d d' : Disk) : Prop :=
  ∀ q, d'.at? q = d.at? q ∨ (place.Inside q ∧ d.at? q = none ∧ d'.at? q = some .dir) ∨
    (q = file ∧ ∃ serial, d'.at? q = some (.file serial content))

/-- Below a place directories were made where nothing lay. -/
def Grew (place : Place) (d d' : Disk) : Prop :=
  ∀ q, d'.at? q = d.at? q ∨ (place.Inside q ∧ d.at? q = none ∧ d'.at? q = some .dir)

theorem Grew.refl (place : Place) (d : Disk) : Grew place d d := fun _ => .inl rfl

theorem Grew.trans {place : Place} {d d' d'' : Disk} (h : Grew place d d')
    (h' : Grew place d' d'') : Grew place d d'' := by
  intro q
  rcases h q with heq | ⟨hin, hnone, hdir⟩
  · rw [← heq]
    exact h' q
  · rcases h' q with heq' | ⟨-, hnone', -⟩
    · exact .inr ⟨hin, hnone, heq'.trans hdir⟩
    · cases hdir.symm.trans hnone'

theorem Grew.at?_eq {place : Place} {d d' : Disk} (h : Grew place d d') {q : Place} {item : Item}
    (hq : d.at? q = some item) : d'.at? q = some item := by
  rcases h q with heq | ⟨-, hnone, -⟩
  · exact heq.trans hq
  · cases hq.symm.trans hnone

section Making

variable {d d' : Disk} {root : OsPath} {dir : Place} {first : Bytes} {rest : List Bytes}

theorem inside_dir_cons (hrest : rest ≠ []) :
    Place.Inside (dir ++ [first]) (dir ++ (first :: rest)) := by
  rw [List.append_cons dir first rest]
  exact inside_append _ hrest

theorem meets_makeDirAt (h : d.Footing root dir) (hrest : rest ≠ []) :
    (makeDirAt (OsPath.stem root ++ (first :: rest).map .down)).Meets d fun _ d' =>
      d'.Footing root dir ∧ Grew (dir ++ [first]) d d' := by
  obtain ⟨m, hwalk⟩ := h.walk_below
  refine .ask_bind ?_ fun e _ => ⟨h, .refl _ _⟩
  intro found hfound
  rw [hwalk false _ (List.cons_ne_nil _ _)] at hfound
  obtain ⟨rfl, hparent⟩ := walk_names h.linkless hfound
  dsimp only
  split
  next => exact meets_throw ⟨h, .refl _ _⟩
  next hnone =>
    have hplace : dir ++ (first :: rest) ≠ [] := by simp
    have hat := DiskOp.at?_apply_makeDir d hplace
    refine meets_change ⟨?_, ?_⟩
    · refine h.put (List.cons_ne_nil _ _) hat (fun _ => nofun) (hparent (List.cons_ne_nil _ _))
        (fun _ => rfl) fun name e => ?_
      cases e
      exact absurd rfl hrest
    · intro q
      rw [hat]
      split
      next heq => exact .inr ⟨heq ▸ inside_dir_cons hrest, heq ▸ hnone, rfl⟩
      next => exact .inl rfl

theorem meets_ensureDirAt (h : d.Footing root dir) (hrest : rest ≠ []) :
    (ensureDirAt (OsPath.stem root ++ (first :: rest).map .down)).Meets d fun _ d' =>
      d'.Footing root dir ∧ Grew (dir ++ [first]) d d' := by
  refine .tryCatch (meets_makeDirAt h hrest) (fun _ _ hd => hd) ?_
  intro e d' hd
  refine .attempt_bind (p := fun _ d'' => d'' = d') (meets_ask rfl) ?_
  intro found d'' heq
  subst heq
  split
  · exact meets_pure hd
  · exact meets_throw hd

/-- A directory that is there is not missed. -/
theorem meets_ensureDirAt_first (h : d.Footing root dir)
    (hfirst : d.at? (dir ++ [first]) = some .dir) :
    (ensureDirAt (OsPath.stem root ++ [.down first])).Meets d fun result d' =>
      result ≠ .error .missing ∧ d' = d := by
  obtain ⟨m, hwalk⟩ := h.walk_below
  have hmake : (makeDirAt (OsPath.stem root ++ [.down first])).Meets d fun result d' =>
      result ≠ .error .missing ∧ d' = d := by
    refine .ask_bind ?_ fun e he => ⟨?_, rfl⟩
    · intro found hfound
      rw [show [PathStep.down first] = [first].map .down from rfl,
        hwalk false _ (List.cons_ne_nil _ _)] at hfound
      obtain ⟨rfl, -⟩ := walk_names h.linkless hfound
      dsimp only
      rw [hfirst]
      exact meets_throw ⟨(fun heq => by cases heq), rfl⟩
    · intro heq
      cases heq
      rw [show [PathStep.down first] = [first].map .down from rfl,
        hwalk false _ (List.cons_ne_nil _ _), List.map_cons, List.map_nil, walk,
        if_neg (not_not_intro h.at?_dir)] at he
      simp only [hfirst] at he
      rw [walk] at he
      split at he <;> cases he
  refine .tryCatch hmake (fun _ _ hd => ⟨(fun heq => by cases heq), hd.2⟩) ?_
  intro e d' hd
  obtain ⟨he, rfl⟩ := hd
  refine .attempt_bind (p := fun _ d'' => d'' = d') (meets_ask rfl) ?_
  intro found d'' heq
  subst heq
  split
  · exact meets_pure ⟨(fun heq => by cases heq), rfl⟩
  · exact meets_throw ⟨fun heq => he (by cases heq; rfl), rfl⟩

theorem parentSteps_down (last first : Bytes) (rest : List Bytes) (up : List PathStep) :
    parentSteps (.down last :: (rest.map .down ++ .down first :: up)) =
      rest.map .down ++ .down first :: up := by
  cases rest <;> rfl

/-- Directories are made one below the other, starting from one that is there. -/
theorem meets_makeDirsUp (h : d.Footing root dir) (hfirst : d.at? (dir ++ [first]) = some .dir)
    (rest : List Bytes) :
    (makeDirsUp ((rest.map .down) ++ .down first :: (OsPath.stem root).reverse)).Meets d
      fun _ d' => d'.Footing root dir ∧ Grew (dir ++ [first]) d d' := by
  have hsteps (l : List Bytes) :
      (l.map PathStep.down ++ PathStep.down first :: (OsPath.stem root).reverse).reverse =
        OsPath.stem root ++ (first :: l.reverse).map .down := by
    simp
  induction rest generalizing d with
  | nil =>
    rw [List.map_nil, List.nil_append, makeDirsUp]
    have hlast := hsteps []
    rw [List.map_nil, List.nil_append] at hlast
    rw [hlast]
    refine .tryCatch (meets_ensureDirAt_first h hfirst) ?_ ?_
    · intro _ d' hd
      cases hd.2
      exact ⟨h, .refl _ _⟩
    · intro e d' hd
      obtain ⟨he, rfl⟩ := hd
      have hne : e ≠ .missing := fun heq => he (heq ▸ rfl)
      rw [if_pos hne]
      exact meets_throw ⟨h, .refl _ _⟩
  | cons last rest ih =>
    rw [List.map_cons, List.cons_append, makeDirsUp]
    have hlast := hsteps (last :: rest)
    rw [List.map_cons, List.cons_append] at hlast
    have hne : (last :: rest).reverse ≠ [] := by simp
    rw [hlast]
    refine .tryCatch (meets_ensureDirAt h hne) (fun _ _ hd => hd) ?_
    rintro e d₁ ⟨h₁, hgrew₁⟩
    have hfirst₁ : d₁.at? (dir ++ [first]) = some .dir := hgrew₁.at?_eq hfirst
    dsimp only
    split
    · exact meets_throw ⟨h₁, hgrew₁⟩
    · rw [parentSteps_down]
      refine .bind (ih h₁ hfirst₁) ?_
        fun _ d₂ hd => ⟨hd.1, hgrew₁.trans hd.2⟩
      rintro _ d₂ ⟨h₂, hgrew₂⟩
      refine (meets_ensureDirAt h₂ hne).mono ?_
      rintro _ d₃ ⟨h₃, hgrew₃⟩
      exact ⟨h₃, (hgrew₁.trans hgrew₂).trans hgrew₃⟩

theorem meets_makeDirs (h : d.Footing root dir) (hfirst : d.at? (dir ++ [first]) = some .dir)
    (hnames : ∀ name ∈ first :: rest, OsPath.IsName name) :
    (makeDirs (OsPath.below root (first :: rest))).Meets d fun _ d' =>
      d'.Footing root dir ∧ Grew (dir ++ [first]) d d' := by
  have hbelow := OsPath.steps_below hnames h.root_ne_nil (List.cons_ne_nil _ _)
  have hsteps : (OsPath.steps (OsPath.trimEnd (OsPath.below root (first :: rest)))).reverse =
      rest.reverse.map .down ++ .down first :: (OsPath.stem root).reverse := by
    rw [OsPath.trimEnd_eq hbelow.2.2, hbelow.1]
    simp
  unfold makeDirs
  rw [hsteps]
  dsimp only
  split
  · exact meets_throw ⟨h, .refl _ _⟩
  · split
    · exact meets_throw ⟨h, .refl _ _⟩
    · exact meets_makeDirsUp h hfirst _

theorem accepted_of_resolve {follow : Bool} {path : OsPath} {found : Found}
    (h : d.resolve follow path = .ok found) : (0 : UInt8) ∉ path ∧ path.length < pathLimit := by
  unfold resolve at h
  split at h
  · cases h
  next hnul =>
    split at h
    · cases h
    · split at h
      · cases h
      next hlength => exact ⟨hnul, Nat.not_le.1 hlength⟩

theorem meets_makeDirs_there (h : d.dirAt root = .ok dir) :
    (makeDirs root).Meets d fun result d' => result = .ok () ∧ d' = d := by
  obtain ⟨-, m, hway⟩ := dirAt_eq_ok h
  obtain ⟨n, hsteps⟩ := OsPath.steps_eq_trimEnd root
  have hway := (hsteps ▸ hway).of_append_stay
  have hmake : (makeDirAt (OsPath.steps (OsPath.trimEnd root))).Meets d fun result d' =>
      (∃ e, result = .error e) ∧ d' = d := by
    obtain ⟨found, hfound, hsome⟩ := hway.walk_false
    refine .ask_bind (fun found' hfound' => ?_) fun e he => ⟨⟨e, rfl⟩, rfl⟩
    cases hfound.symm.trans hfound'
    split
    next => exact meets_throw ⟨⟨_, rfl⟩, rfl⟩
    next hnone => exact absurd hnone hsome
  have hensure : (ensureDirAt (OsPath.steps (OsPath.trimEnd root))).Meets d fun result d' =>
      result = .ok () ∧ d' = d := by
    refine .tryCatch hmake (fun _ _ hd => by cases hd.1.choose_spec) ?_
    rintro e d' ⟨-, heq⟩
    subst heq
    refine .attempt_bind (p := fun result d'' => result = .ok ⟨dir, some .dir⟩ ∧ d'' = d')
      (meets_ask ⟨hway.walk_eq, rfl⟩) ?_
    rintro result d'' ⟨hresult, heq⟩
    subst hresult heq
    exact meets_pure ⟨rfl, rfl⟩
  obtain ⟨_, hresolve, -⟩ := ok_of_bind h
  obtain ⟨hnul, hlength⟩ := accepted_of_resolve hresolve
  unfold makeDirs
  dsimp only
  rw [if_neg hnul, if_neg (Nat.not_le.2 hlength)]
  cases hrev : (OsPath.steps (OsPath.trimEnd root)).reverse with
  | nil =>
    rw [makeDirsUp]
    exact meets_pure ⟨rfl, rfl⟩
  | cons step up =>
    rw [makeDirsUp, ← hrev, List.reverse_reverse]
    exact .tryCatch hensure (fun _ _ hd => hd) fun _ _ hd => by cases hd.1

end Making

section Files

variable {d d' : Disk} {root : OsPath} {dir : Place} {names : List Bytes}

/-- Something can be moved to a place: the directory for it is there, it does not take the place of
a directory unless it is one, and nothing lies below. -/
structure Vacant (dir : Place) (names : List Bytes) (item : Item) (d : Disk) : Prop where
  parent : d.at? (dir ++ names.dropLast) = some .dir
  keep : d.at? (dir ++ names) = some .dir → item = .dir
  clear : ∀ place, Place.Inside (dir ++ names) place → d.at? place = none

theorem meets_rename (h : d.Footing root dir) (hnames : ∀ name ∈ names, OsPath.IsName name)
    (hne : names ≠ []) {source : Place} {item : Item} (hsource : d.at? source = some item) :
    (rename source (OsPath.below root names)).Meets d fun result d' =>
      ((∃ e, result = .error e) ∧ d' = d) ∨
      (result = .ok () ∧ Vacant dir names item d ∧
        d' = (DiskOp.move source (dir ++ names)).apply d) := by
  refine .ask_bind ?_ fun e _ => .inl ⟨⟨e, rfl⟩, rfl⟩
  intro found hfound
  obtain ⟨rfl, hparent⟩ := h.resolve_below hnames hne hfound
  refine .disk_bind ?_
  dsimp only
  rw [hsource]
  split
  next heq hdir =>
    have hdirs : item = .dir := Option.some.inj heq
    split
    next hbelow =>
      refine meets_change (.inr ⟨rfl, ⟨hparent, fun _ => hdirs, ?_⟩, rfl⟩)
      intro place hplace
      obtain ⟨name, rest, rfl⟩ := hplace
      refine Option.eq_none_iff_forall_ne_some.2 ?_
      intro item hitem
      have hmem := mem_below.2 ⟨List.cons_ne_nil name rest, hitem⟩
      rw [hbelow] at hmem
      exact List.not_mem_nil hmem
    next => exact meets_throw (.inl ⟨⟨_, rfl⟩, rfl⟩)
  next => exact meets_throw (.inl ⟨⟨_, rfl⟩, rfl⟩)
  next => exact meets_throw (.inl ⟨⟨_, rfl⟩, rfl⟩)
  next hdir _ _ =>
    exact meets_change (.inr ⟨rfl, ⟨hparent, fun e => (hdir e).elim, fun _ hplace =>
      h.at?_eq_none hdir hplace⟩, rfl⟩)

theorem Wrote.of_grew {place file : Place} {content : Bytes} (h : Grew place d d') :
    Wrote place file content d d' := fun q => (h q).imp_right .inl

/-- A new file that was moved: it lies where it was moved to, and the rest is as it was. -/
theorem at?_move_makeFile {temporary file : Place} {content : Bytes} (htemporary : temporary ≠ [])
    (hfile : file ≠ []) (hfree : d.at? temporary = none)
    (hbelow : ∀ place, temporary.Inside place → d.at? place = none)
    (hclear : ∀ place, file.Inside place →
      ((DiskOp.makeFile temporary content).apply d).at? place = none) (q : Place) :
    ((DiskOp.move temporary file).apply ((DiskOp.makeFile temporary content).apply d)).at? q =
      if q = file then some (.file d.serials content) else d.at? q := by
  have hmade := DiskOp.at?_apply_makeFile d htemporary content
  have hnone {place : Place} (h : ((DiskOp.makeFile temporary content).apply d).at? place = none) :
      d.at? place = none := by
    rw [hmade] at h
    split at h
    · cases h
    · exact h
  by_cases hq : file <+: q
  · obtain ⟨rest, rfl⟩ := hq
    rw [DiskOp.at?_apply_move_below _ htemporary hfile hclear, hmade]
    cases rest with
    | nil => rw [List.append_nil, List.append_nil, if_pos rfl, if_pos rfl]
    | cons name rest =>
      have hne (p : Place) : p ++ name :: rest ≠ p := fun e =>
        List.cons_ne_nil _ _ (List.append_right_eq_self.1 e)
      rw [if_neg (hne _), if_neg (hne _), hbelow _ ⟨name, rest, rfl⟩,
        hnone (hclear _ ⟨name, rest, rfl⟩)]
  · have hne : q ≠ file := fun e => hq (e ▸ List.prefix_refl _)
    rw [DiskOp.at?_apply_move_elsewhere _ htemporary hq, if_neg hne, hmade]
    by_cases hin : temporary <+: q
    · rw [if_pos hin]
      obtain ⟨rest, rfl⟩ := hin
      cases rest with
      | nil => rw [List.append_nil, hfree]
      | cons name rest => exact (hbelow _ ⟨name, rest, rfl⟩).symm
    · have hother : q ≠ temporary := fun e => hin (e ▸ List.prefix_refl _)
      rw [if_neg hin, if_neg hother]

/-- What putting a file below a directory comes to: nothing else changes, and the file is there if
nothing failed. -/
structure Placed (root : OsPath) (dir : Place) (names : List Bytes) (content : Bytes) (d : Disk)
    (result : Except OsError Unit) (d' : Disk) : Prop where
  footing : d'.Footing root dir
  others : ∀ q, d'.at? q = d.at? q ∨
    (q = dir ++ names ∧ ∃ serial, d'.at? q = some (.file serial content))
  written : result = .ok () → ∃ serial, d'.at? (dir ++ names) = some (.file serial content)

theorem Placed.nothing (h : d.Footing root dir) {content : Bytes} {e : OsError} :
    Placed root dir names content d (.error e) d := ⟨h, fun _ => .inl rfl, nofun⟩

theorem Placed.of_at? (h : d.Footing root dir) (hnames : ∀ name ∈ names, OsPath.IsName name)
    (hne : names ≠ []) (hparent : d.at? (dir ++ names.dropLast) = some .dir)
    (hdir : d.at? (dir ++ names) ≠ some .dir) {content : Bytes} {serial : Nat}
    (hat : ∀ q, d'.at? q = if q = dir ++ names then some (.file serial content) else d.at? q)
    (result : Except OsError Unit) : Placed root dir names content d result d' := by
  refine ⟨h.put hne hat (fun _ => nofun) hparent (fun e => absurd e hdir)
    fun name e => hnames name (e ▸ List.mem_singleton_self name), ?_,
    fun _ => ⟨serial, by rw [hat, if_pos rfl]⟩⟩
  intro q
  by_cases hq : q = dir ++ names
  · exact .inr ⟨hq, serial, by rw [hat, if_pos hq]⟩
  · exact .inl (by rw [hat, if_neg hq])

theorem Footing.makeFile {name : Bytes} (h : d.Footing root dir) (hname : OsPath.IsName name)
    (hparent : d.at? (dir ++ names) = some .dir) (hfree : d.at? (dir ++ (names ++ [name])) = none)
    (content : Bytes) :
    ((DiskOp.makeFile (dir ++ (names ++ [name])) content).apply d).Footing root dir := by
  have hne : names ++ [name] ≠ [] := List.append_ne_nil_of_right_ne_nil _ (List.cons_ne_nil _ _)
  have hmade := DiskOp.at?_apply_makeFile d (List.append_ne_nil_of_right_ne_nil dir hne) content
  refine h.put hne hmade (fun _ => nofun) (by rwa [List.dropLast_concat]) ?_ ?_
  · intro e
    cases e.symm.trans hfree
  · intro other e
    have hlast : [name] <:+ [other] := e ▸ List.suffix_append _ _
    rw [List.suffix_cons_iff, List.suffix_nil] at hlast
    rcases hlast with heq | heq
    · cases heq
      exact hname
    · cases heq

/-- A temporary file is made and takes the place of a file, or it is removed. -/
theorem meets_exchange {dirs : List Bytes} {fresh : Bytes} (h : d.Footing root dir)
    (hne : names ≠ []) (hnames : ∀ name ∈ names, OsPath.IsName name) (hfresh : OsPath.IsName fresh)
    (hdir : d.at? (dir ++ dirs) = some .dir)
    (hfree : d.at? (dir ++ (dirs ++ [fresh])) = none) (content : Bytes) :
    (do
      change (.makeFile (dir ++ (dirs ++ [fresh])) content)
      if let .error e ← attempt (rename (dir ++ (dirs ++ [fresh])) (OsPath.below root names)) then
        change (.remove (dir ++ (dirs ++ [fresh])))
        throw (if e = .nulByte then .invalidArgument else e) : DiskM OsError Unit).Meets d
      (Placed root dir names content d) := by
  have h₁ := h.makeFile hfresh hdir hfree content
  have hlong : dirs ++ [fresh] ≠ [] := List.append_ne_nil_of_right_ne_nil _ (List.cons_ne_nil _ _)
  generalize dirs ++ [fresh] = temporary at hfree h₁ hlong ⊢
  have hplace : dir ++ temporary ≠ [] := List.append_ne_nil_of_right_ne_nil _ hlong
  have hmade := DiskOp.at?_apply_makeFile d hplace content
  refine .change_bind ?_
  refine .attempt_bind (meets_rename h₁ hnames hne (by rw [hmade, if_pos rfl]))
    ?_
  intro result d₂ hrenamed
  rcases hrenamed with ⟨⟨e, rfl⟩, rfl⟩ | ⟨rfl, hvacant, rfl⟩
  · dsimp only
    refine .change_bind (meets_throw ?_)
    have hsame (q : Place) : ((DiskOp.remove (dir ++ temporary)).apply
        ((DiskOp.makeFile (dir ++ temporary) content).apply d)).at? q = d.at? q := by
      rw [DiskOp.at?_apply_remove _ hplace, hmade]
      split
      next heq => rw [heq, hfree]
      next => rfl
    exact ⟨h.congr hsame, fun q => .inl (hsame q), nofun⟩
  · have hfile : dir ++ names ≠ [] := List.append_ne_nil_of_right_ne_nil _ hne
    have hat := at?_move_makeFile hplace hfile hfree
      (fun _ hplace => h.at?_eq_none (by rw [hfree]; nofun) hplace) hvacant.clear
    refine meets_pure (.of_at? h hnames hne ?_ ?_ hat _)
    · have hparent := hvacant.parent
      rw [hmade] at hparent
      split at hparent
      · cases hparent
      · exact hparent
    · intro hdir
      have hother : dir ++ names ≠ dir ++ temporary := fun e => by
        rw [e, hfree] at hdir
        cases hdir
      cases hvacant.keep (by rw [hmade, if_neg hother, hdir])

theorem meets_replaceFile {first : Bytes} {dirs files : List Bytes} (h : d.Footing root dir)
    (hfirst : d.at? (dir ++ [first]) = some .dir)
    (hdirs : ∀ name ∈ first :: dirs, OsPath.IsName name)
    (hfiles : ∀ name ∈ first :: files, OsPath.IsName name) (content : Bytes) :
    (replaceFile (OsPath.below root (first :: dirs)) (OsPath.below root (first :: files))
      content).Meets d fun result d' =>
        d'.Footing root dir ∧ Wrote (dir ++ [first]) (dir ++ first :: files) content d d' ∧
        (result = .ok () →
          ∃ serial, d'.at? (dir ++ first :: files) = some (.file serial content)) := by
  refine .bind (meets_makeDirs h hfirst hdirs) ?_
    fun e d₁ ⟨h₁, hgrew⟩ => ⟨h₁, .of_grew hgrew, nofun⟩
  intro _ d₁ ⟨h₁, hgrew⟩
  split
  · exact meets_throw ⟨h₁, .of_grew hgrew, nofun⟩
  refine .ask_bind ?_ fun e _ => ⟨h₁, .of_grew hgrew, nofun⟩
  intro place hplace
  obtain ⟨rfl, hdir⟩ := h₁.dirAt_below hdirs (List.cons_ne_nil _ _) hplace
  refine .disk_bind ?_
  have hfree := d₁.at?_freshName (dir ++ first :: dirs) ".tmp"
  have hfresh : OsPath.IsName (d₁.freshName (dir ++ first :: dirs) ".tmp") :=
    OsPath.isName_numbered (by decide) (by decide) _
  generalize d₁.freshName (dir ++ first :: dirs) ".tmp" = fresh at hfree hfresh ⊢
  have hplace : dir ++ first :: dirs ++ [fresh] = dir ++ (first :: dirs ++ [fresh]) :=
    List.append_assoc ..
  dsimp only
  rw [hplace] at hfree ⊢
  refine (meets_exchange h₁ (List.cons_ne_nil _ _) hfiles hfresh hdir hfree content).mono
    fun result d₂ hplaced => ⟨hplaced.footing, ?_, hplaced.written⟩
  intro q
  rcases hplaced.others q with heq | hwritten
  · rw [heq]
    exact (hgrew q).imp_right .inl
  · exact .inr (.inr hwritten)

theorem meets_writeFile (h : d.Footing root dir) (hnames : ∀ name ∈ names, OsPath.IsName name)
    (hne : names ≠ []) (content : Bytes) :
    (writeFile (OsPath.below root names) content).Meets d (Placed root dir names content d) := by
  refine .ask_bind ?_ fun e _ => .nothing h
  intro found hfound
  obtain ⟨rfl, hparent⟩ := h.resolve_below hnames hne hfound
  have hplace : dir ++ names ≠ [] := List.append_ne_nil_of_right_ne_nil _ hne
  dsimp only
  split
  next => exact meets_throw (.nothing h)
  next item hdir hitem =>
    refine meets_change ?_
    cases item with
    | dir => exact absurd rfl hdir
    | link target => exact absurd hitem (h.linkless _ _ (inside_append dir hne))
    | file serial old =>
      exact .of_at? h hnames hne hparent (by rw [hitem]; nofun)
        (DiskOp.at?_apply_overwrite d hplace hitem content) _
  next hnone =>
    exact meets_change (.of_at? h hnames hne hparent (by rw [hnone]; nofun)
      (DiskOp.at?_apply_makeFile d hplace content) _)

end Files

end Rebuild.Disk
