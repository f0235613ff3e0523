import Rebuild.Proofs.Disk.Changes
import Rebuild.Proofs.Disk.Footing
import Rebuild.Proofs.Disk.Meets

/-!
# Removing below a directory

Something is removed with all that lies below it, and nothing else is.

* `Disk.meets_removeAt`: what a removal leaves.
* `Disk.meets_removeTree`, `Disk.meets_removeFile`: removals by paths of names.
-/
namespace Rebuild.Disk
open DiskM

/-- What lay at a place and below it is gone, and the rest is as it was. -/
def Pruned (place : Place) (d d' : Disk) : Prop :=
  ∀ q, d'.at? q = if place <+: q then none else d.at? q

/-- A round of a removal: what is not listed any more below a place is gone. -/
structure Shedding (place : Place) (d : Disk) (rest : List (Place × Item)) (d' : Disk) : Prop where
  below : ∀ e ∈ rest, e.1 ≠ []
  same : ∀ q, ¬place.Inside q → d'.at? q = d.at? q
  gone : ∀ q, place.Inside q → d'.at? q = none ∨ ∃ e ∈ rest, q = place ++ e.1

theorem meets_removeAt {d : Disk} {place : Place} (hplace : place ≠ []) :
    (removeAt place).Meets d fun result d' => result = .ok () ∧ Pruned place d d' := by
  have hne (names : List Bytes) : place ++ names ≠ [] :=
    List.append_ne_nil_of_left_ne_nil hplace names
  refine .disk_bind ?_
  refine .bind (p := fun result d' => result = .ok ⟨⟩ ∧ Shedding place d [] d') ?_ ?_ ?_
  · refine meets_forIn (Shedding place d) ?_ ?_ _ _ ?_
    · intro e rest d' hinv
      refine .change_bind (meets_pure (.inl ⟨rfl, ?_⟩))
      have hat := DiskOp.at?_apply_remove d' (hne e.1)
      refine ⟨fun e' he' => hinv.below e' (List.mem_cons_of_mem _ he'), ?_, ?_⟩
      · intro q hq
        have hother : q ≠ place ++ e.1 := fun heq =>
          hq (heq ▸ inside_append place (hinv.below e List.mem_cons_self))
        rw [hat, if_neg hother]
        exact hinv.same q hq
      · intro q hq
        rw [hat]
        split
        · exact .inl rfl
        next hother =>
          rcases hinv.gone q hq with hnone | ⟨e', he', heq⟩
          · exact .inl hnone
          · rcases List.mem_cons.1 he' with rfl | he'
            · exact absurd heq hother
            · exact .inr ⟨e', he', heq⟩
    · exact fun d' hinv => ⟨rfl, hinv⟩
    · refine ⟨fun e he => (mem_below.1 (List.mem_reverse.1 he)).1, fun _ _ => rfl, ?_⟩
      intro q hq
      obtain ⟨name, names, rfl⟩ := hq
      cases hitem : d.at? (place ++ name :: names) with
      | none => exact .inl rfl
      | some item =>
        have hmem := mem_below.2 ⟨List.cons_ne_nil name names, hitem⟩
        exact .inr ⟨_, List.mem_reverse.2 hmem, rfl⟩
  · intro _ d' ⟨_, hinv⟩
    refine meets_change ⟨rfl, ?_⟩
    intro q
    rw [DiskOp.at?_apply_remove _ hplace]
    by_cases hin : place <+: q
    · rw [if_pos hin]
      obtain ⟨names, rfl⟩ := hin
      split
      · rfl
      next hother =>
        have hnames : names ≠ [] := fun e => hother (by rw [e, List.append_nil])
        rcases hinv.gone _ (inside_append place hnames) with hnone | ⟨e, he, -⟩
        · exact hnone
        · exact (List.not_mem_nil he).elim
    · have hother : q ≠ place := fun e => hin (e ▸ List.prefix_refl _)
      rw [if_neg hin, if_neg hother]
      exact hinv.same q fun ⟨name, names, e⟩ => hin (e ▸ List.prefix_append _ _)
  · exact fun _ _ ⟨heq, _⟩ => nomatch heq

/-- At a place and below it there is nothing. -/
def Gone (place : Place) (d : Disk) : Prop := ∀ rest, d.at? (place ++ rest) = none

variable {d d' : Disk} {root : OsPath} {dir place : Place} {names : List Bytes}

theorem IsTree.gone (h : d.IsTree dir) (hnone : d.at? (dir ++ names) = none) :
    Gone (dir ++ names) d
  | [] => by rw [List.append_nil, hnone]
  | name :: rest => h.at?_eq_none (by rw [hnone]; nofun) ⟨name, rest, rfl⟩

theorem append_ne_of_ne {name other : Bytes} (h : other ≠ name) (rest more : List Bytes) :
    dir ++ [other] ++ rest ≠ dir ++ [name] ++ more := by
  intro e
  rw [List.append_assoc, List.append_assoc] at e
  exact h (List.cons.inj (List.append_cancel_left e)).1

theorem not_below_other {name other : Bytes} (h : other ≠ name) (rest : List Bytes) :
    ¬dir ++ [name] <+: dir ++ [other] ++ rest := fun ⟨more, e⟩ => append_ne_of_ne h rest more e.symm

theorem not_inside_other {name other : Bytes} (h : other ≠ name) (rest : List Bytes) :
    ¬Place.Inside (dir ++ [name]) (dir ++ [other] ++ rest) :=
  fun ⟨first, more, e⟩ => append_ne_of_ne h rest (first :: more) e

theorem Pruned.gone (h : Pruned place d d') : Gone place d' := fun rest => by
  rw [h, if_pos (List.prefix_append _ _)]

theorem Pruned.same {name other : Bytes} (h : Pruned (dir ++ [name]) d d') (hother : other ≠ name) :
    Same (dir ++ [other]) d d' := fun rest => by
  rw [h, if_neg (not_below_other hother rest)]

theorem Pruned.agreesOff (h : Pruned (dir ++ names) d d') (hne : names ≠ []) :
    d.AgreesOff dir d' := fun q hq => by
  rw [h, if_neg fun e => hq (inside_of_below hne e)]

theorem Footing.pruned (h : d.Footing root dir) (hne : names ≠ [])
    (hpruned : Pruned (dir ++ names) d d') : d'.Footing root dir := h.prune hne hpruned

/-- Removing a tree that a path of names leads to. -/
theorem meets_removeTree (h : d.Footing root dir) (hnames : ∀ name ∈ names, OsPath.IsName name)
    (hne : names ≠ []) :
    (removeTree (OsPath.below root names)).Meets d fun result d' =>
      ((∃ e, result = .error e) ∧ d' = d) ∨ (result = .ok () ∧ Pruned (dir ++ names) d d') := by
  refine .ask_bind ?_ fun e _ => .inl ⟨⟨e, rfl⟩, rfl⟩
  intro found hfound
  obtain ⟨rfl, -⟩ := h.resolve_below hnames hne hfound
  have hplace : dir ++ names ≠ [] := List.append_ne_nil_of_right_ne_nil _ hne
  dsimp only
  split
  next => exact (meets_removeAt hplace).mono fun _ _ hd => .inr hd
  next target hlink => exact absurd hlink (h.linkless _ _ (inside_append dir hne))
  next => exact meets_throw (.inl ⟨⟨_, rfl⟩, rfl⟩)
  next => exact meets_throw (.inl ⟨⟨_, rfl⟩, rfl⟩)

/-- What is removed as a tree is a directory. -/
theorem meets_removeTree_dir (h : d.Footing root dir) (hnames : ∀ name ∈ names, OsPath.IsName name)
    (hne : names ≠ []) :
    (removeTree (OsPath.below root names)).Meets d fun result _ =>
      result = .ok () → d.at? (dir ++ names) = some .dir := by
  refine .ask_bind ?_ fun _ _ => nofun
  intro found hfound
  obtain ⟨rfl, -⟩ := h.resolve_below hnames hne hfound
  dsimp only
  split
  next hdir =>
    exact (meets_removeAt (List.append_ne_nil_of_right_ne_nil dir hne)).mono fun _ _ _ _ => hdir
  next target hlink => exact absurd hlink (h.linkless _ _ (inside_append dir hne))
  next => exact meets_throw nofun
  next => exact meets_throw nofun

theorem meets_removeFile (h : d.Footing root dir) (hnames : ∀ name ∈ names, OsPath.IsName name)
    (hne : names ≠ []) :
    (removeFile (OsPath.below root names)).Meets d fun result d' =>
      ((∃ e, result = .error e) ∧ d' = d) ∨ (result = .ok () ∧ Pruned (dir ++ names) d d') := by
  refine .ask_bind ?_ fun e _ => .inl ⟨⟨e, rfl⟩, rfl⟩
  intro found hfound
  obtain ⟨rfl, -⟩ := h.resolve_below hnames hne hfound
  have hplace : dir ++ names ≠ [] := List.append_ne_nil_of_right_ne_nil _ hne
  dsimp only
  split
  next => exact meets_throw (.inl ⟨⟨_, rfl⟩, rfl⟩)
  next hdir hitem =>
    refine meets_change (.inr ⟨rfl, ?_⟩)
    intro q
    rw [DiskOp.at?_apply_remove _ hplace]
    by_cases hin : dir ++ names <+: q
    · rw [if_pos hin]
      obtain ⟨rest, rfl⟩ := hin
      split
      · rfl
      next hother =>
        have hrest : rest ≠ [] := fun e => hother (by rw [e, List.append_nil])
        refine h.at?_eq_none (fun e => ?_) (inside_append _ hrest)
        exact hdir (Option.some.inj (hitem.symm.trans e))
    · have hother : q ≠ dir ++ names := fun e => hin (e ▸ List.prefix_refl _)
      rw [if_neg hin, if_neg hother]
  next => exact meets_throw (.inl ⟨⟨_, rfl⟩, rfl⟩)

end Rebuild.Disk
