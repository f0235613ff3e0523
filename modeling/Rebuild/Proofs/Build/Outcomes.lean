import Rebuild.Proofs.Build.Course

/-!
# Every builder has its outcome

A run that gives a report accounts for every planned builder, once. Who is
skipped and who is held back is told by the builders that failed, wherever they
stand in the graph; everybody else is run once, and counts by how its run ended.

* `Report.Right`: what a report must say, given the runs that there were.
* `execute_right`: what a run reports is right, and what can be asked afterwards
  agrees with it.
-/
namespace Rebuild

/-- The planned builders, wave by wave. -/
def Plan.ids {β : Type} (plan : Plan) (g : Graph β) : List BuilderId :=
  plan.waves.flatten.map g.idAt

/-- A builder is planned for a wave. -/
def Plan.InWave {β : Type} (plan : Plan) (g : Graph β) (i : Nat) (id : BuilderId) : Prop :=
  ∃ wave n, plan.waves[i]? = some wave ∧ n ∈ wave ∧ g.idAt n = id

namespace Report

/-- A failure of the builder is reported. -/
def Failed (r : Report) (id : BuilderId) : Prop := ∃ e ∈ r.failed, e.builder? = some id

/-- The builder is reported as skipped. -/
def Skips (r : Report) (id : BuilderId) : Prop := ∃ s ∈ r.skipped, s.builder = id

/-- What a report must say of the builders of a plan, given the runs that there were. -/
structure Right {β : Type} (r : Report) (g : Graph β) (plan : Plan) (failFast : Bool)
    (runs : List (Nat × Except RunFailure Outputs)) : Prop where
  /-- Everybody planned is named once, in one of the lists, and nobody else is. -/
  partition : r.accounts.Perm ((plan.ids g).map some)
  distinct : (plan.ids g).Nodup
  skips_iff : ∀ id ∈ plan.ids g, r.Skips id ↔ ∃ a, r.Failed a ∧ g.Precedes a id
  notStarted_iff : ∀ id ∈ plan.ids g, id ∈ r.notStarted ↔
    failFast = true ∧ (¬∃ a, r.Failed a ∧ g.Precedes a id) ∧
      ∃ i j a, j < i ∧ plan.InWave g i id ∧ plan.InWave g j a ∧ r.Failed a
  /-- Nobody is run twice. -/
  runs_distinct : (runs.map fun e => g.idAt e.1).Nodup
  mem_runs_iff : ∀ id, id ∈ runs.map (fun e => g.idAt e.1) ↔
    id ∈ plan.ids g ∧ ¬r.Skips id ∧ id ∉ r.notStarted
  executed_iff : ∀ id, id ∈ r.executed ↔ ∃ n outputs, (n, .ok outputs) ∈ runs ∧ g.idAt n = id
  failed_iff : ∀ e, e ∈ r.failed ↔
    ∃ n failure, (n, .error failure) ∈ runs ∧ failure.error (g.idAt n) = e
  /-- The prerequisite that a skipped builder is reported with is the first that is lost. -/
  first_lost : ∀ s ∈ r.skipped, ∃ n, g.index? s.prerequisite = some n ∧
    ⟨s.prerequisite, s.builder⟩ ∈ g.edges ∧ (r.Failed s.prerequisite ∨ r.Skips s.prerequisite) ∧
    ∀ id m, ⟨id, s.builder⟩ ∈ g.edges → g.index? id = some m → r.Failed id ∨ r.Skips id → n ≤ m
  results_iff : ∀ id outputs, r.results.get? id = some outputs ↔
    ∃ n, (n, .ok outputs) ∈ runs ∧ g.idAt n = id
  mem_keys_iff : ∀ id, id ∈ r.results.keys ↔ id ∈ r.executed

end Report

/-! ## Settled ledgers are right -/

namespace Settled

variable {β : Type} {g : Graph β} {plan : Plan} {failFast : Bool} {ledgers : List Ledger}
  {runs : List (Nat × Except RunFailure Outputs)}

theorem mem_ids {id : BuilderId} :
    id ∈ plan.ids g ↔ ∃ n ∈ plan.waves.flatten, g.idAt n = id := List.mem_map

theorem nodup_ids (h : Settled plan failFast [] plan.waves ledgers) (hplan : plan.Sound g) :
    (ledgers.flatten.map fun e => g.idAt e.1).Nodup ∧ (plan.ids g).Nodup := by
  have hids : (plan.ids g).Nodup := by
    refine List.pairwise_map.2 (hplan.layers.nodup_flatten.1.imp_of_mem ?_)
    intro _ _ hm hn hne heq
    exact hne (g.idAt_injective (hplan.lt _ hm) (hplan.lt _ hn) heq)
  refine ⟨?_, hids⟩
  have hperm := h.perm.map g.idAt
  rw [List.map_map] at hperm
  exact hperm.symm.nodup hids

theorem failed_iff (h : Settled plan failFast [] plan.waves ledgers) (id : BuilderId) :
    (Ledger.report g ledgers.flatten).Failed id ↔
      ∃ n ∈ plan.waves.flatten, Failed ledgers.flatten n ∧ g.idAt n = id := by
  constructor
  · intro ⟨e, he, hid⟩
    obtain ⟨n, failure, hn, rfl⟩ := (mem_failed g).1 he
    rw [builder?_error] at hid
    exact ⟨n, h.planned hn, ⟨failure, hn⟩, Option.some.inj hid⟩
  · rintro ⟨n, -, ⟨failure, hn⟩, rfl⟩
    exact ⟨_, (mem_failed g).2 ⟨n, failure, hn, rfl⟩, builder?_error _ _⟩

theorem skips_iff (h : Settled plan failFast [] plan.waves ledgers) (id : BuilderId) :
    (Ledger.report g ledgers.flatten).Skips id ↔
      ∃ n ∈ plan.waves.flatten, (∃ p, (n, Fate.skipped p) ∈ ledgers.flatten) ∧ g.idAt n = id := by
  constructor
  · rintro ⟨s, hs, rfl⟩
    obtain ⟨n, p, hn, rfl⟩ := (mem_skipped g).1 hs
    exact ⟨n, h.planned hn, ⟨p, hn⟩, rfl⟩
  · rintro ⟨n, -, ⟨p, hn⟩, rfl⟩
    exact ⟨_, (mem_skipped g).2 ⟨n, p, hn, rfl⟩, rfl⟩

/-- Who stands behind a failed builder, told by places and told by names. -/
theorem exists_failed_iff (h : Settled plan failFast [] plan.waves ledgers) (id : BuilderId) :
    (∃ a, (Ledger.report g ledgers.flatten).Failed a ∧ g.Precedes a id) ↔
      ∃ m ∈ plan.waves.flatten, Failed ledgers.flatten m ∧ g.Precedes (g.idAt m) id := by
  constructor
  · intro ⟨a, ha, hbefore⟩
    obtain ⟨m, hm, hfailed, rfl⟩ := (h.failed_iff a).1 ha
    exact ⟨m, hm, hfailed, hbefore⟩
  · intro ⟨m, hm, hfailed, hbefore⟩
    exact ⟨_, (h.failed_iff _).2 ⟨m, hm, hfailed, rfl⟩, hbefore⟩

theorem eq_of_idAt (hplan : plan.Sound g) {m n : Nat} (hm : m ∈ plan.waves.flatten)
    (hn : n ∈ plan.waves.flatten) (heq : g.idAt m = g.idAt n) : m = n :=
  g.idAt_injective (hplan.lt m hm) (hplan.lt n hn) heq

theorem notStarted_iff (h : Settled plan failFast [] plan.waves ledgers) (hplan : plan.Sound g)
    {id : BuilderId} (hid : id ∈ plan.ids g) :
    id ∈ (Ledger.report g ledgers.flatten).notStarted ↔
      failFast = true ∧
      (¬∃ a, (Ledger.report g ledgers.flatten).Failed a ∧ g.Precedes a id) ∧
      ∃ i j a, j < i ∧ plan.InWave g i id ∧ plan.InWave g j a ∧
        (Ledger.report g ledgers.flatten).Failed a := by
  obtain ⟨n, hn, rfl⟩ := mem_ids.1 hid
  rw [mem_notStarted, h.exists_failed_iff, ← h.skipped_iff hplan hn]
  constructor
  · intro ⟨m, he, heq⟩
    have hm := h.planned he
    cases eq_of_idAt hplan hm hn heq
    obtain ⟨l, hl, hel⟩ := List.mem_flatten.1 he
    obtain ⟨i, hi⟩ := List.mem_iff_getElem?.1 hl
    obtain ⟨wave, hwave, hperm⟩ := (h.due_at hplan.layers hi).1
    obtain ⟨-, hstopped⟩ := h.due hplan hi hel
    obtain ⟨hfast, hsome⟩ := Bool.and_eq_true_iff.1 hstopped
    obtain ⟨j, wave', m, hji, hwave', hm', hfailed⟩ := (h.someFailed_take_iff hplan i).1 hsome
    have hm0 : m ∈ plan.waves.flatten := List.mem_flatten.2 ⟨_, List.mem_of_getElem? hwave', hm'⟩
    refine ⟨hfast, ?_, i, j, g.idAt m, hji, ?_, ?_, ?_⟩
    · intro ⟨p, hp⟩
      cases h.fate_unique hplan he hp
    · exact ⟨wave, n, hwave, hperm.mem_iff.1 (List.mem_map.2 ⟨_, hel, rfl⟩), rfl⟩
    · exact ⟨wave', m, hwave', hm', rfl⟩
    · exact (h.failed_iff _).2 ⟨m, hm0, hfailed, rfl⟩
  · intro ⟨hfast, hskipped, i, j, a, hji, hi, hj, ha⟩
    obtain ⟨wave, m, hwave, hm, heq⟩ := hi
    obtain ⟨wave', k, hwave', hk, rfl⟩ := hj
    have hm0 : m ∈ plan.waves.flatten := List.mem_flatten.2 ⟨_, List.mem_of_getElem? hwave, hm⟩
    have hk0 : k ∈ plan.waves.flatten := List.mem_flatten.2 ⟨_, List.mem_of_getElem? hwave', hk⟩
    cases eq_of_idAt hplan hm0 hn heq
    obtain ⟨k', hk', hfailed, hkeq⟩ := (h.failed_iff _).1 ha
    cases eq_of_idAt hplan hk' hk0 hkeq
    have hsome := (h.someFailed_take_iff hplan i).2 ⟨j, wave', k, hji, hwave', hk, hfailed⟩
    obtain ⟨l, hl, hperm⟩ := h.exists_ledger hwave
    obtain ⟨⟨n, fate⟩, hel, rfl⟩ := List.mem_map.1 (hperm.mem_iff.2 hm)
    have he : (n, fate) ∈ ledgers.flatten := List.mem_flatten.2 ⟨l, List.mem_of_getElem? hl, hel⟩
    have hdue := h.due hplan hl hel
    rw [hfast, hsome] at hdue
    cases fate with
    | skipped p => exact absurd ⟨p, he⟩ hskipped
    | heldBack => exact ⟨n, he, rfl⟩
    | ran result => exact absurd hdue.2 (by decide)

theorem mem_runs_iff (h : Settled plan failFast [] plan.waves ledgers) (hplan : plan.Sound g)
    (id : BuilderId) : (∃ n result, (n, Fate.ran result) ∈ ledgers.flatten ∧ g.idAt n = id) ↔
      id ∈ plan.ids g ∧ ¬(Ledger.report g ledgers.flatten).Skips id ∧
        id ∉ (Ledger.report g ledgers.flatten).notStarted := by
  constructor
  · rintro ⟨n, result, he, rfl⟩
    have hn := h.planned he
    refine ⟨mem_ids.2 ⟨n, hn, rfl⟩, ?_, ?_⟩
    · intro hs
      obtain ⟨m, hm, ⟨p, hp⟩, heq⟩ := (h.skips_iff _).1 hs
      cases eq_of_idAt hplan hm hn heq
      cases h.fate_unique hplan he hp
    · intro hs
      obtain ⟨m, hm, heq⟩ := (mem_notStarted g).1 hs
      cases eq_of_idAt hplan (h.planned hm) hn heq
      cases h.fate_unique hplan he hm
  · intro ⟨hid, hskips, hstarted⟩
    obtain ⟨n, hn, rfl⟩ := mem_ids.1 hid
    obtain ⟨fate, he⟩ := h.exists_fate hn
    cases fate with
    | ran result => exact ⟨n, result, he, rfl⟩
    | skipped p => exact absurd ((h.skips_iff _).2 ⟨n, hn, ⟨p, he⟩, rfl⟩) hskips
    | heldBack => exact absurd ((mem_notStarted g).2 ⟨n, he, rfl⟩) hstarted

theorem first_lost (h : Settled plan failFast [] plan.waves ledgers) (hplan : plan.Sound g)
    {s : Skipped} (hs : s ∈ (Ledger.report g ledgers.flatten).skipped) :
    ∃ n, g.index? s.prerequisite = some n ∧ ⟨s.prerequisite, s.builder⟩ ∈ g.edges ∧
      ((Ledger.report g ledgers.flatten).Failed s.prerequisite ∨
        (Ledger.report g ledgers.flatten).Skips s.prerequisite) ∧
      ∀ id m, ⟨id, s.builder⟩ ∈ g.edges → g.index? id = some m →
        (Ledger.report g ledgers.flatten).Failed id ∨
          (Ledger.report g ledgers.flatten).Skips id → n ≤ m := by
  have hlost (n : Nat) (hn : n ∈ plan.waves.flatten) :
      (Ledger.report g ledgers.flatten).Failed (g.idAt n) ∨
        (Ledger.report g ledgers.flatten).Skips (g.idAt n) ↔
      Ledger.lost ledgers.flatten n = true := by
    rw [lost_iff_failed_or_skipped, h.failed_iff, h.skips_iff]
    refine or_congr ?_ ?_
    · refine ⟨fun ⟨m, hm, hfailed, heq⟩ => ?_, fun hfailed => ⟨n, hn, hfailed, rfl⟩⟩
      cases eq_of_idAt hplan hm hn heq
      exact hfailed
    · refine ⟨fun ⟨m, hm, hskipped, heq⟩ => ?_, fun hskipped => ⟨n, hn, hskipped, rfl⟩⟩
      cases eq_of_idAt hplan hm hn heq
      exact hskipped
  obtain ⟨n, p, he, rfl⟩ := (mem_skipped g).1 hs
  have hn := h.planned he
  have hneeds (m : Nat) (hm : m ∈ plan.prerequisitesOf n) : m ∈ plan.waves.flatten :=
    (hplan.layers.mem_of_needs n hn m hm).resolve_left List.not_mem_nil
  have hfind := h.find?_of_mem hplan he
  have hp := List.mem_of_find?_eq_some hfind
  obtain ⟨hpsize, hedge⟩ := (hplan.mem_prerequisitesOf n hn p).1 hp
  refine ⟨p, g.index?_idAt hpsize, hedge, (hlost p (hneeds p hp)).2 (List.find?_some hfind),
    fun id m hid hm hlostm => ?_⟩
  obtain ⟨hmsize, rfl⟩ := (g.index?_eq_some_iff id m).1 hm
  have hmn := (hplan.mem_prerequisitesOf n hn m).2 ⟨hmsize, hid⟩
  have hmlost := (hlost m (hneeds m hmn)).1 hlostm
  -- the prerequisites are ascending, so the first lost one has the lowest place
  obtain ⟨-, before, after, hsplit, hbefore⟩ := List.find?_eq_some_iff_append.1 hfind
  have hascending := hplan.ascending n hn
  rw [hsplit] at hmn hascending
  rcases List.mem_append.1 hmn with hmem | hmem
  · have := hbefore m hmem
    rw [hmlost] at this
    cases this
  · rcases List.mem_cons.1 hmem with rfl | hmem
    · exact Nat.le_refl _
    · have := (List.pairwise_cons.1 (List.pairwise_append.1 hascending).2.1).1 m hmem
      omega

/-- The report of a settled ledger is right. -/
theorem right (h : Settled plan failFast [] plan.waves ledgers) (hplan : plan.Sound g)
    (hruns : (Ledger.runs ledgers.flatten).Perm runs) :
    (Ledger.report g ledgers.flatten).Right g plan failFast runs := by
  obtain ⟨hkeys, hids⟩ := h.nodup_ids hplan
  have hmem (n : Nat) (result : Except RunFailure Outputs) :
      (n, result) ∈ runs ↔ (n, Fate.ran result) ∈ ledgers.flatten := by
    rw [← hruns.mem_iff, Ledger.mem_runs]
  refine ⟨?_, hids, ?_, fun id hid => h.notStarted_iff hplan hid, ?_, ?_,
    ?_, ?_, fun s hs => h.first_lost hplan hs, ?_, ?_⟩
  · have hperm := h.perm.map fun n => some (g.idAt n)
    rw [List.map_map] at hperm
    have hmap : (plan.ids g).map some = plan.waves.flatten.map fun n => some (g.idAt n) :=
      List.map_map ..
    rw [hmap]
    exact (accounts_report g ledgers.flatten).trans hperm
  · intro id hid
    obtain ⟨n, hn, rfl⟩ := mem_ids.1 hid
    rw [h.exists_failed_iff, ← h.skipped_iff hplan hn, h.skips_iff]
    refine ⟨fun ⟨m, hm, hskipped, heq⟩ => ?_, fun hskipped => ⟨n, hn, hskipped, rfl⟩⟩
    cases eq_of_idAt hplan hm hn heq
    exact hskipped
  · have hsub : ((Ledger.runs ledgers.flatten).map Prod.fst).Sublist
        (ledgers.flatten.map Prod.fst) := Ledger.runs_sublist _
    have := (hsub.map g.idAt).nodup (by rw [List.map_map]; exact hkeys)
    rw [List.map_map] at this
    exact (hruns.map _).nodup this
  · intro id
    rw [← h.mem_runs_iff hplan, List.mem_map]
    constructor
    · rintro ⟨⟨n, result⟩, he, rfl⟩
      exact ⟨n, result, (hmem n result).1 he, rfl⟩
    · rintro ⟨n, result, he, rfl⟩
      exact ⟨(n, result), (hmem n result).2 he, rfl⟩
  · intro id
    rw [mem_executed]
    simp only [hmem]
  · intro e
    rw [mem_failed]
    simp only [hmem]
  · intro id outputs
    rw [get?_results g hkeys]
    simp only [hmem]
  · intro id
    rw [SortedMap.mem_keys, SortedMap.contains, Option.isSome_iff_exists, mem_executed]
    simp only [get?_results g hkeys]
    exact exists_comm

end Settled

/-! ## Results of right reports -/

namespace Report.Right

variable {β : Type} {r : Report} {g : Graph β} {plan : Plan} {failFast : Bool}
  {runs : List (Nat × Except RunFailure Outputs)}

theorem mem_accounts {id : BuilderId} (h : r.Right g plan failFast runs) :
    id ∈ plan.ids g ↔ id ∈ r.executed ∨ r.Failed id ∨ r.Skips id ∨ id ∈ r.notStarted := by
  have hmem : some id ∈ (plan.ids g).map some ↔ id ∈ plan.ids g := by simp
  rw [← hmem, ← h.partition.mem_iff]
  unfold accounts
  simp [Failed, Skips]

theorem all_executed_iff (h : r.Right g plan failFast runs) :
    (∀ id ∈ plan.ids g, id ∈ r.executed) ↔ r.failed = [] := by
  constructor
  · intro hall
    refine List.eq_nil_iff_forall_not_mem.2 ?_
    intro e he
    obtain ⟨n, failure, -, rfl⟩ := (h.failed_iff e).1 he
    have hid : g.idAt n ∈ plan.ids g :=
      h.mem_accounts.2 (.inr (.inl ⟨_, he, builder?_error _ _⟩))
    have hnodup : r.accounts.Nodup := h.partition.symm.nodup
      (List.pairwise_map.2 (h.distinct.imp fun hne heq => hne (Option.some.inj heq)))
    unfold accounts at hnodup
    rw [List.append_assoc, List.append_assoc, List.nodup_append] at hnodup
    refine hnodup.2.2 (some (g.idAt n)) (List.mem_map.2 ⟨_, hall _ hid, rfl⟩)
      (some (g.idAt n)) (List.mem_append_left _ (List.mem_map.2 ⟨_, he, builder?_error _ _⟩)) rfl
  · intro hnil id hid
    have hnobody (a : BuilderId) : ¬r.Failed a := by
      rintro ⟨e, he, -⟩
      rw [hnil] at he
      cases he
    rcases h.mem_accounts.1 hid with hx | hx | hx | hx
    · exact hx
    · exact absurd hx (hnobody id)
    · obtain ⟨a, ha, -⟩ := (h.skips_iff id hid).1 hx
      exact absurd ha (hnobody a)
    · obtain ⟨-, -, _, _, a, -, -, -, ha⟩ := (h.notStarted_iff id hid).1 hx
      exact absurd ha (hnobody a)

theorem isSuccess_iff (h : r.Right g plan failFast runs) :
    r.isSuccess = true ↔ ∀ id ∈ plan.ids g, id ∈ r.executed := by
  rw [h.all_executed_iff]
  unfold isSuccess
  simp only [Bool.and_eq_true, List.isEmpty_iff]
  refine ⟨fun hs => hs.1.1, fun hnil => ⟨⟨hnil, ?_⟩, ?_⟩⟩
  · refine List.eq_nil_iff_forall_not_mem.2 ?_
    intro s hs
    obtain ⟨a, ⟨e, he, -⟩, -⟩ := (h.skips_iff s.builder
      (h.mem_accounts.2 (.inr (.inr (.inl ⟨s, hs, rfl⟩))))).1 ⟨s, hs, rfl⟩
    rw [hnil] at he
    cases he
  · refine List.eq_nil_iff_forall_not_mem.2 ?_
    intro id hid
    obtain ⟨-, -, _, _, a, -, -, -, e, he, -⟩ :=
      (h.notStarted_iff id (h.mem_accounts.2 (.inr (.inr (.inr hid))))).1 hid
    rw [hnil] at he
    cases he

end Report.Right

theorem Report.mem_outputs (r : Report) (p : RelativePath) :
    p ∈ r.outputs ↔ ∃ id outputs, r.results.get? id = some outputs ∧ p ∈ outputs := by
  have hunion : ∀ (l : List Outputs) (s : Outputs),
      p ∈ l.foldl SortedSet.union s ↔ p ∈ s ∨ ∃ outputs ∈ l, p ∈ outputs := by
    intro l
    induction l with
    | nil => simp
    | cons a l ih =>
      intro s
      rw [List.foldl_cons, ih, SortedSet.mem_union, or_assoc]
      simp
  unfold outputs SortedMap.values
  rw [hunion]
  constructor
  · rintro (h | ⟨outputs, h, hp⟩)
    · exact absurd h (SortedSet.not_mem_empty p)
    · obtain ⟨⟨id, made⟩, he, rfl⟩ := List.mem_map.1 h
      exact ⟨id, made, (SortedMap.mem_entries_iff _ _ _).1 he, hp⟩
  · intro ⟨id, outputs, he, hp⟩
    exact .inr ⟨outputs, List.mem_map.2 ⟨_, (SortedMap.mem_entries_iff _ _ _).2 he, rfl⟩, hp⟩

/-! ## Contexts -/

namespace Context

variable {σ : Type}

theorem runPlan_spec {g : Graph (Builder σ)} (config : Config) {schedule : Schedule} {plan : Plan}
    (hschedule : ∀ wave, (schedule wave).Perm wave) (hplan : plan.Sound g) (t : Traced σ) :
    ∃ runs report t', runPlan g config schedule plan t = (report, t') ∧ Runs g t runs t' ∧
      report.Right g plan config.failFast runs := by
  obtain ⟨ledgers, runs, t', hrun, hsettled, hruns, hperm⟩ :=
    runPlan_settled config hschedule hplan t
  exact ⟨runs, _, t', hrun, hruns, hsettled.right hplan hperm⟩

theorem resultsOf_of_none {c : Context σ} {id : BuilderId} (hid : c.contains id = true)
    (hnone : c.results.get? id = none) : c.resultsOf id = .error (.notRun id) := by
  have hid : c.graph.contains id = true := hid
  unfold resultsOf
  rw [if_pos hid, hnone]

theorem resultsOf_iff {g : Graph (Builder σ)} {config : Config}
    {transformations : List (Transformation σ)} {hasRun failFast : Bool} {plan : Plan} {r : Report}
    {runs : List (Nat × Except RunFailure Outputs)} (h : r.Right g plan failFast runs)
    (hplan : plan.Sound g) (id : BuilderId) (outputs : Outputs) :
    resultsOf ⟨config, g, transformations, r.results, hasRun⟩ id = .ok outputs ↔
      r.results.get? id = some outputs := by
  have hknown (h' : r.results.get? id = some outputs) : g.contains id = true := by
    obtain ⟨n, hn, rfl⟩ := (h.results_iff id outputs).1 h'
    obtain ⟨m, hm, heq⟩ := Settled.mem_ids.1
      ((h.mem_runs_iff (g.idAt n)).1 (List.mem_map.2 ⟨_, hn, rfl⟩)).1
    exact (g.contains_iff _).2 ⟨m, hplan.lt m hm, heq⟩
  unfold resultsOf
  by_cases hid : g.contains id = true
  · rw [if_pos hid]
    cases r.results.get? id <;> simp
  · rw [if_neg hid]
    exact ⟨fun h' => (nomatch h'), fun h' => absurd (hknown h') hid⟩

/-- A run that gives a report: the transformations let it pass, a plan was made, and builders were
run, so that the report is right. The results can be asked for afterwards. -/
theorem execute_right {c c' : Context σ} {schedule : Schedule} {root : Option BuilderId}
    {t t' : Traced σ} {report : Report} (hschedule : ∀ wave, (schedule wave).Perm wave)
    (h : c.execute schedule root t = ((.ok report, c'), t')) :
    ∃ plan runs t₁,
      applyTransformations 0 c.transformations c.graph.edges
        (Action.tell (.buildStarted c.graph.size c.graph.edges.size root) t).2 =
          ((.ok (), c'.graph.edges), t₁) ∧
      c'.graph.nodes = c.graph.nodes ∧ c'.graph.plan root = .ok plan ∧
      Runs c'.graph t₁ runs t' ∧ report.Right c'.graph plan c.config.failFast runs ∧
      (∀ id outputs, c'.resultsOf id = .ok outputs ↔ report.results.get? id = some outputs) ∧
      (∀ id, c'.contains id = true → id ∉ report.executed →
        c'.resultsOf id = .error (.notRun id)) ∧
      ∃ result, c.run schedule root t = ((result, c'), t') ∧
        (∀ outputs, result = .ok outputs ↔
          (∀ id ∈ plan.ids c'.graph, id ∈ report.executed) ∧
          ∀ p, p ∈ outputs ↔ ∃ id made, report.results.get? id = some made ∧ p ∈ made) ∧
        ∀ e, result = .error e ↔ report.failed.head? = some e := by
  have hrun : c.run schedule root t = ((report.result, c'), t') := by
    unfold run
    rw [Action.bind_apply, h]
    rfl
  unfold execute at h
  cases hhas : c.hasRun with
  | true =>
    rw [hhas] at h
    cases h
  | false =>
    simp only [hhas, Action.bind_apply, Bool.false_eq_true, ↓reduceIte] at h
    generalize htransformed : applyTransformations 0 c.transformations c.graph.edges
      (Action.tell (.buildStarted c.graph.size c.graph.edges.size root) t).2 = answer at h
    obtain ⟨⟨go, edges⟩, t₁⟩ := answer
    cases go with
    | error n => cases h
    | ok =>
      cases hplan : ({ c.graph with edges } : Graph (Builder σ)).plan root with
      | error e =>
        simp only [hplan] at h
        cases h
      | ok plan =>
        have hsound := sound_of_plan hplan
        obtain ⟨runs, report', t₂, hrunPlan, hruns, hright⟩ :=
          runPlan_spec c.config hschedule hsound t₁
        simp only [hplan, Action.bind_apply, hrunPlan] at h
        cases h
        refine ⟨plan, runs, t₁, rfl, rfl, hplan, hruns, hright, ?_,
          ?_, report.result, hrun, ?_, ?_⟩
        · intro id outputs
          exact resultsOf_iff hright hsound id outputs
        · intro id hid hexecuted
          have hnone : report.results.get? id = none := by
            rw [← hright.mem_keys_iff, SortedMap.mem_keys, SortedMap.contains] at hexecuted
            simpa using hexecuted
          exact resultsOf_of_none hid hnone
        · intro outputs
          rw [hright.all_executed_iff]
          unfold Report.result
          cases hfailed : report.failed with
          | nil =>
            simp only [Except.ok.injEq, true_and, ← Report.mem_outputs]
            exact ⟨fun heq p => by rw [heq], fun hmem => SortedSet.ext_mem fun p => (hmem p).symm⟩
          | cons e rest => simp
        · intro e
          unfold Report.result
          cases report.failed <;> simp

/-! ## A run with a failure -/

/-- A builder that ends as given. -/
def endingAs (key : String) (result : Except RunFailure Outputs) : Builder Unit :=
  ⟨⟨"b", key⟩, 0, .nothing, pure result, []⟩

/-- Two builders, the first of which breaks down; the second needs it, a third needs nobody. -/
def broken : Context Unit where
  config := { parallelism := 1, failFast := true }
  graph := {
    nodes := [(⟨"b", "first"⟩, endingAs "first" (.error .panicked)),
      (⟨"b", "second"⟩, endingAs "second" (.ok ∅)), (⟨"b", "third"⟩, endingAs "third" (.ok ∅))]
    edges := SortedSet.ofList [⟨⟨"b", "first"⟩, ⟨"b", "second"⟩⟩]
    distinct := by decide }

theorem execute_right_broken : ∃ report c' t',
    broken.execute id none ⟨(), []⟩ = ((.ok report, c'), t') ∧
    report.executed = [⟨"b", "third"⟩] ∧ report.failed = [.panicked ⟨"b", "first"⟩] ∧
    report.skipped = [⟨⟨"b", "second"⟩, ⟨"b", "first"⟩⟩] ∧
    ∃ plan runs, c'.graph.plan none = .ok plan ∧ report.Right c'.graph plan true runs := by
  have hschedule : ∀ wave : List Nat, (id wave).Perm wave := fun _ => .rfl
  refine ⟨_, _, _, rfl, rfl, rfl, rfl, ?_⟩
  obtain ⟨plan, runs, _, -, -, hplan, -, hright, -⟩ :=
    execute_right hschedule (show broken.execute id none ⟨(), []⟩ = _ from rfl)
  exact ⟨plan, runs, hplan, hright⟩

end Context

end Rebuild
