import Rebuild.Proofs.Build.Tasks

/-!
# The tasks of a wave

What is known of the tasks of a wave if it is settled how builders end. Tasks take
their steps in any order; what is collected is filed under the right places, so that
the outcomes in order of mention are what is settled.

* `Pool.Sound`: the invariant.
* `Pool.Sound.advance`, `Pool.Sound.collect`: steps of tasks keep it.
* `Pool.Sound.sorted`: what a wave comes to.
* `Pool.Sound.begun_start`: one at a time, builders start in order of mention.
-/
namespace Rebuild

theorem lookup_noted : ∀ {tasks : List Task}, (tasks.map Task.number).Nodup → ∀ task ∈ tasks,
    (tasks.map fun task => (task.number, task.place)).lookup task.number = some task.place
  | first :: tasks, hdistinct, task, htask => by
    rw [List.map_cons, List.nodup_cons] at hdistinct
    rw [List.map_cons, List.lookup_cons]
    rcases List.mem_cons.1 htask with rfl | htask
    · simp
    · have hne : task.number ≠ first.number := fun h =>
        hdistinct.1 (h ▸ List.mem_map_of_mem htask)
      rw [beq_eq_false_iff_ne.2 hne]
      exact lookup_noted hdistinct.2 task htask

theorem Task.begun_of_collected {task : Task} (h : task.isCollected = true) :
    task.isWaiting = false ∧ task.isRunning = false := by
  unfold isCollected at h
  unfold isWaiting isRunning
  cases hstage : task.stage with
  | collected => exact ⟨rfl, rfl⟩
  | _ => simp [hstage] at h

theorem forall_mem_replaced {P : Task → Prop} {tasks before after : List Task} {task new : Task}
    (htasks : tasks = before ++ task :: after) (hold : ∀ other ∈ tasks, P other) (hnew : P new) :
    ∀ other ∈ before ++ new :: after, P other := by
  subst htasks
  intro other ho
  rcases List.mem_append.1 ho with ho | ho
  · exact hold other (List.mem_append_left _ ho)
  · rcases List.mem_cons.1 ho with rfl | ho
    · exact hnew
    · exact hold other (List.mem_append_right _ (List.mem_cons_of_mem _ ho))

namespace Pool

/-- The tasks of a wave run the builders at the given places, results are as settled, and what is
collected is filed where it belongs. If builders run one at a time, they are started in order. -/
structure Sound {β : Type} (p : Pool) (g : Graph β) (ends : Nat → Except RunFailure Outputs)
    (parallelism : Nat) (places : List Nat) : Prop where
  noted : p.noted = p.tasks.map fun task => (task.number, task.place)
  distinct : (p.tasks.map Task.number).Nodup
  places : p.tasks.map Task.place = places
  ended : ∀ task ∈ p.tasks, ∀ result, task.stage = .ended result → result = ends task.place
  outcomes : p.outcomes.Perm ((p.tasks.filter Task.isCollected).map fun task =>
    (task.place, (ends task.place).mapError (RunFailure.error (g.idAt task.place))))
  inOrder : parallelism ≤ 1 → p.tasks.Pairwise fun a b => a.isWaiting = true → b.isWaiting = true

section Sound

variable {β : Type} {p : Pool} {g : Graph β} {ends : Nat → Except RunFailure Outputs}
  {parallelism : Nat} {places : List Nat} {before after : List Task} {task : Task}

theorem sound_spawn {numbers : List Nat} (hdistinct : numbers.Nodup)
    (hlength : numbers.length = places.length) :
    (spawn numbers places).Sound g ends parallelism places := by
  have hwaiting : ∀ task ∈ (spawn numbers places).tasks, task.stage = .waiting := fun task ht => by
    obtain ⟨e, -, rfl⟩ := List.mem_map.1 ht
    rfl
  refine ⟨?_, ?_, ?_, fun task ht result h => ?_, ?_, fun _ => ?_⟩
  · unfold spawn
    rw [List.map_map]
    exact (List.map_id _).symm
  · unfold spawn
    rw [List.map_map]
    show ((numbers.zip places).map Prod.fst).Nodup
    rwa [List.map_fst_zip (Nat.le_of_eq hlength)]
  · unfold spawn
    rw [List.map_map]
    show (numbers.zip places).map Prod.snd = places
    rw [List.map_snd_zip (Nat.le_of_eq hlength.symm)]
  · rw [hwaiting task ht] at h
    cases h
  · have hnone : (spawn numbers places).tasks.filter Task.isCollected = [] :=
      List.filter_eq_nil_iff.2 fun task ht => by simp [Task.isCollected, hwaiting task ht]
    rw [hnone]
    exact .nil
  · exact List.pairwise_iff_forall_sublist.2 fun hsub _ => by
      have := hwaiting _ (hsub.subset (List.mem_cons_of_mem _ List.mem_cons_self))
      simp [Task.isWaiting, this]

/-- Before a task that was started no task waits, if builders run one at a time. -/
theorem Sound.begun_before (h : p.Sound g ends parallelism places)
    (htasks : p.tasks = before ++ task :: after) (hbegun : task.isWaiting = false)
    (hone : parallelism ≤ 1) : ∀ a ∈ before, a.isWaiting = false := by
  have horder := h.inOrder hone
  rw [htasks] at horder
  intro a ha
  have := (List.pairwise_append.1 horder).2.2 a ha task List.mem_cons_self
  rw [hbegun] at this
  simpa using this

theorem Sound.advance (h : p.Sound g ends parallelism places)
    (htasks : p.tasks = before ++ task :: after) {stage : Stage} {outcomes : List (Nat × Outcome)}
    (hended : ∀ result, stage = .ended result → result = ends task.place)
    (hbegun : Task.isWaiting { task with stage } = false)
    (hleft : parallelism ≤ 1 → ∀ a ∈ before, a.isWaiting = false)
    (houtcomes : outcomes.Perm (((before ++ { task with stage } :: after).filter
      Task.isCollected).map fun task =>
        (task.place, (ends task.place).mapError (RunFailure.error (g.idAt task.place))))) :
    Sound { p.advance before task after stage with outcomes } g ends parallelism places := by
  obtain ⟨hnoted, hdistinct, hplaces, hendeds, -, hinOrder⟩ := h
  rw [htasks] at hnoted hdistinct hplaces hinOrder
  refine ⟨?_, ?_, ?_, ?_, houtcomes, ?_⟩
  · simpa [Pool.advance] using hnoted
  · simpa [Pool.advance] using hdistinct
  · simpa [Pool.advance] using hplaces
  · exact forall_mem_replaced htasks hendeds hended
  · intro hone
    obtain ⟨hbefore, hafter, -⟩ := List.pairwise_append.1 (hinOrder hone)
    rw [List.pairwise_cons] at hafter
    refine List.pairwise_append.2 ⟨hbefore, List.pairwise_cons.2 ⟨?_, hafter.2⟩, ?_⟩
    · intro b _ hwaiting
      rw [hbegun] at hwaiting
      cases hwaiting
    · intro a ha b _ hwaiting
      rw [hleft hone a ha] at hwaiting
      cases hwaiting

theorem Sound.advance_of_not_collected (h : p.Sound g ends parallelism places)
    (htasks : p.tasks = before ++ task :: after) {stage : Stage}
    (hended : ∀ result, stage = .ended result → result = ends task.place)
    (hbegun : Task.isWaiting { task with stage } = false)
    (hleft : parallelism ≤ 1 → ∀ a ∈ before, a.isWaiting = false)
    (hold : task.isCollected = false) (hnew : Task.isCollected { task with stage } = false) :
    (p.advance before task after stage).Sound g ends parallelism places := by
  refine h.advance htasks hended hbegun hleft ?_
  have houtcomes := h.outcomes
  rw [htasks, List.filter_append, List.filter_cons_of_neg (by simp [hold])] at houtcomes
  rw [List.filter_append, List.filter_cons_of_neg (by simp [hnew])]
  exact houtcomes

theorem Sound.collect (h : p.Sound g ends parallelism places)
    (htasks : p.tasks = before ++ task :: after) {result : Except RunFailure Outputs}
    (hstage : task.stage = .ended result) :
    ((p.advance before task after .collected).collect g task.number result).Sound g ends
      parallelism places := by
  have hmem : task ∈ p.tasks := htasks ▸ List.mem_append_right _ List.mem_cons_self
  have hlookup : p.noted.lookup task.number = some task.place := by
    rw [h.noted]
    exact lookup_noted h.distinct task hmem
  have hcollect : (p.advance before task after .collected).collect g task.number result =
      { p.advance before task after .collected with
        outcomes := p.outcomes ++ [(task.place,
          result.mapError (RunFailure.error (g.idAt task.place)))] } := by
    have hnoted : (p.advance before task after .collected).noted = p.noted := rfl
    unfold Pool.collect
    rw [hnoted, hlookup]
    rfl
  have hbegun : task.isWaiting = false := by simp [Task.isWaiting, hstage]
  rw [hcollect]
  refine h.advance htasks (fun _ heq => by cases heq) rfl (h.begun_before htasks hbegun) ?_
  have houtcomes := h.outcomes
  rw [htasks, List.filter_append,
    List.filter_cons_of_neg (by simp [Task.isCollected, hstage])] at houtcomes
  rw [List.filter_append, List.filter_cons_of_pos rfl, h.ended task hmem result hstage,
    List.map_append, List.map_cons]
  rw [List.map_append] at houtcomes
  exact (houtcomes.append_right _).trans
    ((List.append_assoc ..).symm ▸ (List.perm_append_comm.append_left _))

/-- When everything is collected, the outcomes in order of mention are what is settled. -/
theorem Sound.sorted (h : p.Sound g ends parallelism places)
    (hascending : places.Pairwise (· < ·)) (hdone : ∀ task ∈ p.tasks, task.isCollected = true) :
    p.sorted = places.map fun n => (n, (ends n).mapError (RunFailure.error (g.idAt n))) := by
  have hperm : p.outcomes.Perm
      (places.map fun n => (n, (ends n).mapError (RunFailure.error (g.idAt n)))) := by
    have houtcomes := h.outcomes
    rw [List.filter_eq_self.2 hdone] at houtcomes
    rw [← h.places, List.map_map]
    exact houtcomes
  unfold Pool.sorted
  have hsorted := (List.mergeSort_perm p.outcomes fun a b => a.1 ≤ b.1).trans hperm
  refine hsorted.eq_of_pairwise ?_
    ((List.pairwise_mergeSort (by simp; omega) (by simp; omega) _).imp of_decide_eq_true)
    (List.pairwise_map.2 (hascending.imp Nat.le_of_lt))
  intro a b ha hb hab hba
  obtain ⟨m, -, rfl⟩ := List.mem_map.1 (hsorted.mem_iff.1 ha)
  obtain ⟨n, -, rfl⟩ := List.mem_map.1 hb
  obtain rfl : m = n := Nat.le_antisymm hab hba
  rfl

/-! ### Who was started -/

theorem begun_spawn (numbers places : List Nat) : (spawn numbers places).begun = [] := by
  unfold begun
  rw [List.map_eq_nil_iff, List.filter_eq_nil_iff]
  intro task ht
  obtain ⟨e, -, rfl⟩ := List.mem_map.1 ht
  simp [Task.isWaiting]

theorem begun_start (htasks : p.tasks = before ++ task :: after)
    (hwaiting : task.isWaiting = true) :
    (p.advance before task after .running).begun.Perm (p.begun ++ [task.place]) := by
  unfold begun advance
  rw [htasks]
  simp only [List.filter_append, List.map_append]
  rw [List.filter_cons_of_pos (by rfl), List.filter_cons_of_neg (by simp [hwaiting]),
    List.map_cons, List.append_assoc]
  exact (List.perm_append_singleton _ _).symm.append_left _

theorem Sound.begun_start (h : p.Sound g ends parallelism places)
    (htasks : p.tasks = before ++ task :: after) (hwaiting : task.isWaiting = true)
    (hone : parallelism ≤ 1) :
    (p.advance before task after .running).begun = p.begun ++ [task.place] := by
  have horder := h.inOrder hone
  rw [htasks, List.pairwise_append, List.pairwise_cons] at horder
  have hafter : after.filter (fun task => !task.isWaiting) = [] :=
    List.filter_eq_nil_iff.2 fun b hb => by simp [horder.2.1.1 b hb hwaiting]
  unfold begun Pool.advance
  rw [htasks]
  simp only [List.filter_append, List.map_append]
  rw [List.filter_cons_of_pos (by rfl), List.filter_cons_of_neg (by simp [hwaiting]), hafter,
    List.map_nil, List.append_nil]
  rfl

theorem begun_advance (htasks : p.tasks = before ++ task :: after) {stage : Stage}
    (hold : task.isWaiting = false) (hnew : Task.isWaiting { task with stage } = false) :
    (p.advance before task after stage).begun = p.begun := by
  unfold begun advance
  rw [htasks]
  simp only [List.filter_append, List.map_append]
  rw [List.filter_cons_of_pos (by simp [hnew]), List.filter_cons_of_pos (by simp [hold])]
  rfl

theorem begun_collect (p : Pool) (g : Graph β) (number : Nat)
    (result : Except RunFailure Outputs) : (p.collect g number result).begun = p.begun := by
  unfold begun
  rw [tasks_collect]

theorem begun_of_done (h : p.Sound g ends parallelism places)
    (hdone : ∀ task ∈ p.tasks, task.isCollected = true) : p.begun = places := by
  unfold begun
  rw [List.filter_eq_self.2, h.places]
  intro task ht
  rw [(Task.begun_of_collected (hdone task ht)).1]
  rfl

end Sound

end Pool

end Rebuild
