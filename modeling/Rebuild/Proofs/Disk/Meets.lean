import Rebuild.Disk.Action
import Rebuild.Proofs.Except

/-!
# What operations come to

An operation meets a condition on a disk if it ends as the condition says, with
a result or with a failure, whatever changes are on record before. Conditions of
the parts of an operation make a condition of the whole.

* `DiskM.Meets`: what an operation comes to on a disk.
* `Meets.bind`, `Meets.tryCatch`: operations one after the other.
-/
namespace Rebuild.DiskM

variable {ε δ α β : Type} {d : Disk}

/-- Run on the disk, the operation ends as the condition says. -/
def Meets (x : DiskM ε α) (d : Disk) (post : Except ε α → Disk → Prop) : Prop :=
  ∀ changes, post ((ExceptT.run x).run ⟨d, changes⟩).1 ((ExceptT.run x).run ⟨d, changes⟩).2.disk

section Rules

variable {x : DiskM ε α} {f : α → DiskM ε β} {p : Except ε α → Disk → Prop}
  {post post' : Except ε α → Disk → Prop}

theorem Meets.run (h : x.Meets d post) : post (x.run d).1 (x.run d).2 := h []

theorem Meets.mono (h : x.Meets d post) (hpost : ∀ result d', post result d' → post' result d') :
    x.Meets d post' := fun changes => hpost _ _ (h changes)

theorem Meets.and (h : x.Meets d post) (h' : x.Meets d post') :
    x.Meets d fun result d' => post result d' ∧ post' result d' :=
  fun changes => ⟨h changes, h' changes⟩

theorem meets_pure {a : α} (h : post (.ok a) d) : (pure a : DiskM ε α).Meets d post := fun _ => h

theorem meets_throw {e : ε} (h : post (.error e) d) : (throw e : DiskM ε α).Meets d post :=
  fun _ => h

theorem meets_ask {question : Disk → Except ε α} (h : post (question d) d) :
    (ask question).Meets d post := fun _ => h

theorem meets_change {op : DiskOp} {post : Except ε Unit → Disk → Prop}
    (h : post (.ok ()) (op.apply d)) : (change op : DiskM ε Unit).Meets d post := fun _ => h

theorem Meets.bind {q : Except ε β → Disk → Prop} (h : x.Meets d p)
    (hok : ∀ a d', p (.ok a) d' → (f a).Meets d' q)
    (herror : ∀ e d', p (.error e) d' → q (.error e) d') : (x >>= f).Meets d q := by
  intro changes
  have hx := h changes
  rw [ExceptT.run_bind, StateT.run_bind]
  generalize (ExceptT.run x).run ⟨d, changes⟩ = ran at hx ⊢
  obtain ⟨result, j⟩ := ran
  cases result with
  | ok a => exact hok a j.disk hx j.changes
  | error e => exact herror e j.disk hx

theorem run_bind {p : Except ε β → Disk → Prop} {a : α} {d' : Disk}
    (h : x.run d = (.ok a, d')) (hnext : (f a).Meets d' p) :
    p ((x >>= f).run d).1 ((x >>= f).run d).2 := by
  unfold run at h ⊢
  rw [ExceptT.run_bind, StateT.run_bind]
  generalize (ExceptT.run x).run ⟨d, []⟩ = ran at h ⊢
  obtain ⟨result, j⟩ := ran
  cases h
  exact hnext j.changes

theorem run_mapError {g : ε → δ} {a : α} {d' : Disk} (h : x.run d = (.ok a, d')) :
    (mapError g x).run d = (.ok a, d') := by
  have hrun : (mapError g x).run d = ((x.run d).1.mapError g, (x.run d).2) := rfl
  rw [hrun, h]
  rfl

theorem Meets.disk_bind {f : Disk → DiskM ε β} {post : Except ε β → Disk → Prop}
    (h : (f d).Meets d post) : (disk >>= f).Meets d post := h

theorem Meets.ask_bind {question : Disk → Except ε α} {post : Except ε β → Disk → Prop}
    (hok : ∀ a, question d = .ok a → (f a).Meets d post)
    (herror : ∀ e, question d = .error e → post (.error e) d) :
    (ask question >>= f).Meets d post := by
  refine Meets.bind (p := fun result d' => d' = d ∧ question d = result) (meets_ask ⟨rfl, rfl⟩)
    ?_ ?_
  · intro a d' h
    obtain ⟨rfl, h⟩ := h
    exact hok a h
  · intro e d' h
    obtain ⟨rfl, h⟩ := h
    exact herror e h

theorem Meets.change_bind {op : DiskOp} {f : Unit → DiskM ε β} {post : Except ε β → Disk → Prop}
    (h : (f ()).Meets (op.apply d) post) : (change op >>= f).Meets d post :=
  fun changes => h (op :: changes)

theorem Meets.modify_bind {g : Disk → Disk} {f : Unit → DiskM ε β}
    {post : Except ε β → Disk → Prop} (h : (f ()).Meets (g d) post) :
    ((modifyThe Journal fun j => { j with disk := g j.disk }) >>= f).Meets d post :=
  fun changes => h changes

theorem Meets.tryCatch {handle : ε → DiskM ε α} (h : x.Meets d p)
    (hok : ∀ a d', p (.ok a) d' → post (.ok a) d')
    (herror : ∀ e d', p (.error e) d' → (handle e).Meets d' post) :
    (MonadExcept.tryCatch x handle).Meets d post := by
  intro changes
  have hx := h changes
  rw [ExceptT.run_tryCatch, StateT.run_bind]
  generalize (ExceptT.run x).run ⟨d, changes⟩ = ran at hx ⊢
  obtain ⟨result, j⟩ := ran
  cases result with
  | ok a => exact hok a j.disk hx
  | error e => exact herror e j.disk hx j.changes

/-- What follows an operation sees how it ended. -/
theorem Meets.attempt_bind {f : Except ε α → DiskM δ β} {post : Except δ β → Disk → Prop}
    (h : x.Meets d p) (hnext : ∀ result d', p result d' → (f result).Meets d' post) :
    (attempt x >>= f).Meets d post := by
  have hattempt : (attempt x : DiskM δ (Except ε α)).Meets d fun result d' =>
      ∃ ended, result = .ok ended ∧ p ended d' := fun changes => ⟨_, rfl, h changes⟩
  refine hattempt.bind ?_ ?_
  · intro ended d' hp
    obtain ⟨_, heq, hp⟩ := hp
    cases heq
    exact hnext ended d' hp
  · intro e d' hp
    obtain ⟨_, heq, -⟩ := hp
    cases heq

theorem Meets.ignore_bind {x : DiskM ε Unit} {p : Except ε Unit → Disk → Prop}
    {f : Unit → DiskM δ β} {post : Except δ β → Disk → Prop} (h : x.Meets d p)
    (hnext : ∀ result d', p result d' → (f ()).Meets d' post) : (ignore x >>= f).Meets d post :=
  h.attempt_bind (f := fun _ => f ()) hnext

theorem Meets.mapError {g : ε → δ} (h : x.Meets d p) : (mapError g x).Meets d fun result d' =>
    ∃ ended, result = ended.mapError g ∧ p ended d' := fun changes => ⟨_, rfl, h changes⟩

/-- A loop keeps an invariant about what it has still to go through, until a round fails. -/
theorem meets_forIn {γ : Type} {f : γ → PUnit → DiskM ε (ForInStep PUnit)}
    {post : Except ε PUnit → Disk → Prop} (inv : List γ → Disk → Prop)
    (hround : ∀ a rest d, inv (a :: rest) d → (f a ⟨⟩).Meets d fun result d' =>
      (result = .ok (.yield ⟨⟩) ∧ inv rest d') ∨ ∃ e, result = .error e ∧ post (.error e) d')
    (hend : ∀ d, inv [] d → post (.ok ⟨⟩) d) :
    ∀ (l : List γ) (d : Disk), inv l d → (forIn l PUnit.unit f).Meets d post
  | [], d, h => by
    rw [List.forIn_nil]
    exact meets_pure (hend d h)
  | a :: rest, d, h => by
    rw [List.forIn_cons]
    refine .bind (hround a rest d h) ?_ ?_
    · intro step d' hd
      rcases hd with ⟨heq, hinv⟩ | ⟨e, heq, -⟩
      · cases heq
        exact meets_forIn inv hround hend rest d' hinv
      · cases heq
    · intro e d' hd
      rcases hd with ⟨heq, -⟩ | ⟨e', heq, hpost⟩
      · cases heq
      · cases heq
        exact hpost

end Rules

end Rebuild.DiskM
