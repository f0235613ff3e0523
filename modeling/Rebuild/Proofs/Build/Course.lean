import Rebuild.Proofs.Build.Ledger

/-!
# The course of a run

A run settles the fate of every planned builder, wave by wave, and keeps a ledger
of them: what it reports is what is reported of the ledger, and the places it
takes for lost are those that the ledger says failed or were skipped.

* `Runs`: the runs of builders that lead from one world to another, in order.
* `Course.Keeps`: what is known in the course of a run is what the ledger says.
* `step_spec`, `runWaves_spec`: a wave, and all waves, settle what is due.
* `runPlan_settled`: what a run of a plan reports is a settled ledger.
-/
namespace Rebuild

section Entering

variable {β : Type} (g : Graph β)

/-- The course of a run keeps a ledger. -/
structure Course.Keeps (c : Course) (l : Ledger) : Prop where
  report : c.report = l.report g
  lost : ∀ n, n ∈ c.lost ↔ l.lost n = true

theorem Course.Keeps.isEmpty_failed {c : Course} {l : Ledger} (h : c.Keeps g l) :
    c.report.failed.isEmpty = !l.someFailed := by
  rw [h.report]
  unfold Ledger.report
  rw [isEmpty_failed_foldl]
  rfl

theorem Course.Keeps.append {c c' : Course} {l m : Ledger} (h : c.Keeps g l)
    (hreport : c'.report = m.foldl (Report.enter g) c.report)
    (hlost : ∀ n, n ∈ c'.lost ↔ n ∈ c.lost ∨ m.lost n = true) : c'.Keeps g (l ++ m) := by
  refine ⟨?_, ?_⟩
  · rw [hreport, h.report, Ledger.report_append]
  · intro n
    rw [hlost, h.lost, Ledger.lost_append, Bool.or_eq_true]

end Entering

/-! ## Runs -/

/-- The log was told something, and nothing else happened. -/
def Told {σ : Type} (t t' : Traced σ) : Prop := ∃ events, t' = { t with log := events ++ t.log }

section Told

variable {σ : Type} {t t' t'' : Traced σ}

theorem Told.rfl : Told t t := ⟨[], by simp⟩

theorem Told.trans (h : Told t t') (h' : Told t' t'') : Told t t'' := by
  obtain ⟨events, rfl⟩ := h
  obtain ⟨more, rfl⟩ := h'
  exact ⟨more ++ events, by simp⟩

theorem Told.world_eq (h : Told t t') : t'.world = t.world := by
  obtain ⟨events, rfl⟩ := h
  rfl

theorem Told.tell (e : Event) : Told t (Action.tell e t).2 := ⟨[e], by simp [Action.tell_apply]⟩

theorem Told.tellAll (events : List Event) : Told t (Action.tellAll events t).2 :=
  ⟨events.reverse, by simp [Action.tellAll_apply]⟩

end Told

/-- From one world to another by runs of builders: each place that is named is run once for each
time it is named, in order, and in between only the log is told something. -/
inductive Runs {σ : Type} (g : Graph (Builder σ)) :
    Traced σ → List (Nat × Except RunFailure Outputs) → Traced σ → Prop
  | done {t t' : Traced σ} (told : Told t t') : Runs g t [] t'
  | run {t t₁ t₂ t' : Traced σ} {n : Nat} {id : BuilderId} {b : Builder σ}
      {result : Except RunFailure Outputs} {rest : List (Nat × Except RunFailure Outputs)}
      (told : Told t t₁) (node : g.nodes[n]? = some (id, b)) (run : b.run t₁ = (result, t₂))
      (others : Runs g t₂ rest t') : Runs g t ((n, result) :: rest) t'

namespace Runs

variable {σ : Type} {g : Graph (Builder σ)} {t t' t'' : Traced σ}
  {l m : List (Nat × Except RunFailure Outputs)}

theorem told_left (h : Told t t') (hruns : Runs g t' l t'') : Runs g t l t'' := by
  cases hruns with
  | done told => exact .done (h.trans told)
  | run told node run others => exact .run (h.trans told) node run others

theorem append (h : Runs g t l t') (h' : Runs g t' m t'') : Runs g t (l ++ m) t'' := by
  induction h with
  | done told => exact told_left told h'
  | run told node run _ ih => exact .run told node run (ih h')

theorem told_right (h : Runs g t l t') (h' : Told t' t'') : Runs g t l t'' := by
  have := h.append (.done h')
  rwa [List.append_nil] at this

end Runs

/-! ## Adding builders -/

/-- A builder that is added, and its prerequisites. -/
structure Addition (σ : Type) where
  builder : Builder σ
  prerequisites : List (Builder σ)

namespace Graph

variable {σ : Type}

/-- Adds a prerequisite of a builder. -/
def need (dependent : BuilderId) (g : Graph (Builder σ)) (b : Builder σ) : Graph (Builder σ) :=
  (g.addNode b.id b).2.addEdge b.id dependent

/-- Adds a builder with its prerequisites. -/
def declare (g : Graph (Builder σ)) (call : Addition σ) : Graph (Builder σ) :=
  call.prerequisites.foldl (need call.builder.id) (g.addNode call.builder.id call.builder).2

end Graph

namespace Context

variable {σ : Type} {g : Graph (Builder σ)}

theorem mem_addNode {id : BuilderId} {b : Builder σ} {node : BuilderId × Builder σ}
    (h : node ∈ (g.addNode id b).2.nodes) : node ∈ g.nodes ∨ node = (id, b) := by
  unfold Graph.addNode at h
  split at h
  · exact .inl h
  · exact (List.mem_append.1 h).imp_right List.mem_singleton.1

theorem insert_spec (g : Graph (Builder σ)) (b : Builder σ) (t : Traced σ) :
    ∃ t', insert g b t = ((g.addNode b.id b).2, t') ∧ Told t t' := by
  unfold insert
  cases g.get? b.id with
  | none => exact ⟨t, rfl, .rfl⟩
  | some first =>
    by_cases hserial : first.serial ≠ b.serial
    · simp only [if_pos hserial]
      exact ⟨_, rfl, .tell _⟩
    · simp only [if_neg hserial]
      exact ⟨t, rfl, .rfl⟩

theorem insertPrerequisites_eq (dependent : BuilderId) : ∀ (prerequisites : List (Builder σ))
    (g : Graph (Builder σ)) (t : Traced σ), ∃ t',
      insertPrerequisites dependent g prerequisites t =
        (prerequisites.foldl (Graph.need dependent) g, t') ∧ Told t t'
  | [], g, t => ⟨t, rfl, .rfl⟩
  | b :: rest, g, t => by
    have hrest (t₁ : Traced σ) (htold : Told t t₁) : ∃ t',
        (do
          let g ← insert g b
          insertPrerequisites dependent (g.addEdge b.id dependent) rest) t₁ =
            ((b :: rest).foldl (Graph.need dependent) g, t') ∧ Told t t' := by
      obtain ⟨t₂, hinsert, htold₂⟩ := insert_spec g b t₁
      obtain ⟨t', heq, htold'⟩ := insertPrerequisites_eq dependent rest (g.need dependent b) t₂
      refine ⟨t', ?_, (htold.trans htold₂).trans htold'⟩
      rw [Action.bind_apply, hinsert]
      exact heq
    unfold insertPrerequisites
    split
    · exact hrest t .rfl
    · exact hrest _ (.tell _)

theorem add_eq {c : Context σ} (hfresh : c.hasRun = false) (call : Addition σ) (t : Traced σ) :
    ∃ t', c.add call.builder call.prerequisites t =
      ((.ok (), { c with graph := c.graph.declare call }), t') ∧ Told t t' := by
  obtain ⟨t₁, hinsert, htold₁⟩ := insert_spec c.graph call.builder t
  obtain ⟨t', heq, htold⟩ := insertPrerequisites_eq call.builder.id call.prerequisites
    (c.graph.addNode call.builder.id call.builder).2 t₁
  refine ⟨t', ?_, htold₁.trans htold⟩
  unfold add
  rw [if_neg (by rw [hfresh]; nofun), Action.bind_apply, hinsert, Action.bind_apply, heq]
  rfl

theorem mem_foldl_need {dependent : BuilderId} {node : BuilderId × Builder σ} :
    ∀ {prerequisites : List (Builder σ)} {g : Graph (Builder σ)},
    node ∈ (prerequisites.foldl (Graph.need dependent) g).nodes →
      node ∈ g.nodes ∨ ∃ b ∈ prerequisites, node = (b.id, b)
  | [], _, h => .inl h
  | b :: rest, g, h => by
    have hrest : node ∈ (rest.foldl (Graph.need dependent) (g.need dependent b)).nodes := h
    rcases mem_foldl_need hrest with hnode | ⟨b', hb', rfl⟩
    · exact (mem_addNode hnode).imp_right fun heq => ⟨b, List.mem_cons_self, heq⟩
    · exact .inr ⟨b', List.mem_cons_of_mem _ hb', rfl⟩

theorem add_spec {c : Context σ} (hfresh : c.hasRun = false) (b : Builder σ)
    (prerequisites : List (Builder σ)) (t : Traced σ) :
    ∃ graph t', c.add b prerequisites t = ((.ok (), { c with graph }), t') ∧ Told t t' ∧
      ∀ node ∈ graph.nodes,
        node ∈ c.graph.nodes ∨ ∃ b' ∈ b :: prerequisites, node = (b'.id, b') := by
  obtain ⟨t', heq, htold⟩ := add_eq hfresh ⟨b, prerequisites⟩ t
  refine ⟨_, t', heq, htold, fun node hnode => ?_⟩
  rcases mem_foldl_need hnode with hnode | ⟨b', hb', rfl⟩
  · exact (mem_addNode hnode).imp_right fun heq => ⟨b, List.mem_cons_self, heq⟩
  · exact .inr ⟨b', List.mem_cons_of_mem _ hb', rfl⟩

end Context

/-! ## Waves -/

namespace Context

variable {σ : Type} {g : Graph (Builder σ)}

/-- How a run of the builder at a place counts. -/
def outcomeAt (g : Graph (Builder σ)) (e : Nat × Except RunFailure Outputs) : Nat × Outcome :=
  (e.1, e.2.mapError (RunFailure.error (g.idAt e.1)))

theorem runAt_spec {n : Nat} (hn : n < g.size) (t : Traced σ) :
    ∃ id b, g.nodes[n]? = some (id, b) ∧
      runAt g n t = (outcomeAt g (n, (b.run t).1), (b.run t).2) := by
  have hlen : n < g.nodes.length := hn
  have hnode : g.nodes[n]? = some g.nodes[n] := List.getElem?_eq_getElem hlen
  have hid : g.idAt n = g.nodes[n].1 := g.idAt_of_getElem? hnode
  refine ⟨g.nodes[n].1, g.nodes[n].2, hnode, ?_⟩
  unfold runAt outcomeAt
  rw [hnode, hid]
  dsimp only
  rw [Action.bind_apply]
  cases (g.nodes[n].2.run t).1 with
  | ok outputs => rfl
  | error failure => cases failure <;> rfl

theorem mapM_runAt : ∀ {places : List Nat}, (∀ n ∈ places, n < g.size) → ∀ t : Traced σ,
    ∃ runs t', places.mapM (runAt g) t = (runs.map (outcomeAt g), t') ∧
      runs.map Prod.fst = places ∧ Runs g t runs t'
  | [], _, t => ⟨[], t, rfl, rfl, .done .rfl⟩
  | n :: places, hlt, t => by
    obtain ⟨id, b, hnode, hrun⟩ := runAt_spec (hlt n (by simp)) t
    obtain ⟨runs, t', hmap, hkeys, hruns⟩ :=
      mapM_runAt (fun m hm => hlt m (List.mem_cons_of_mem _ hm)) (b.run t).2
    refine ⟨(n, (b.run t).1) :: runs, t', ?_, by rw [List.map_cons, hkeys], ?_⟩
    · rw [List.mapM_cons, Action.bind_apply, hrun, Action.bind_apply, hmap]
      rfl
    · exact .run .rfl hnode rfl hruns

theorem map_fst_mergeSort {α : Type} {l : List (Nat × α)} {keys : List Nat}
    (hperm : (l.map Prod.fst).Perm keys) (hkeys : keys.Pairwise (· < ·)) :
    (l.mergeSort fun a b => a.1 ≤ b.1).map Prod.fst = keys := by
  have hsorted : (l.mergeSort fun a b => a.1 ≤ b.1).map Prod.fst =
      (l.map Prod.fst).mergeSort fun a b => a ≤ b :=
    List.map_mergeSort fun a _ b _ => rfl
  have hascending : ((l.map Prod.fst).mergeSort fun a b => a ≤ b).Pairwise (· ≤ ·) :=
    (List.pairwise_mergeSort (by simp; omega) (by simp; omega) _).imp of_decide_eq_true
  rw [hsorted]
  refine List.Perm.eq_of_pairwise (fun a b _ _ => Nat.le_antisymm) hascending
    (hkeys.imp Nat.le_of_lt) ((List.mergeSort_perm _ _).trans hperm)

/-- The runs of a wave, in the order in which they count. They are counted in another order than
that of the runs only if several builders may run at the same time. -/
theorem runWave_spec (parallelism : Nat) {schedule : Schedule}
    (hschedule : ∀ wave, (schedule wave).Perm wave) {wave : List Nat}
    (hascending : wave.Pairwise (· < ·)) (hlt : ∀ n ∈ wave, n < g.size) (t : Traced σ) :
    ∃ (runs counted : List (Nat × Except RunFailure Outputs)) (t' : Traced σ),
      runWave g parallelism schedule wave t = (counted.map (outcomeAt g), t') ∧
      counted.Perm runs ∧ counted.map Prod.fst = wave ∧ Runs g t runs t' := by
  unfold runWave
  split
  next =>
    obtain ⟨runs, t', hmap, hkeys, hruns⟩ := mapM_runAt hlt t
    exact ⟨runs, runs, t', hmap, .rfl, hkeys, hruns⟩
  next =>
    have hperm := hschedule wave
    obtain ⟨runs, t', hmap, hkeys, hruns⟩ :=
      mapM_runAt (fun n hn => hlt n (hperm.mem_iff.1 hn)) t
    refine ⟨runs, runs.mergeSort fun a b => a.1 ≤ b.1, t', ?_, List.mergeSort_perm _ _, ?_, hruns⟩
    · have hsorted : (runs.mergeSort fun a b => a.1 ≤ b.1).map (outcomeAt g) =
          (runs.map (outcomeAt g)).mergeSort fun a b => a.1 ≤ b.1 :=
        List.map_mergeSort fun a _ b _ => rfl
      rw [Action.bind_apply, hmap, hsorted]
      rfl
    · exact map_fst_mergeSort (hkeys ▸ hperm) hascending

/-- Entries of runs. -/
def ranEntry (e : Nat × Except RunFailure Outputs) : Nat × Fate := (e.1, .ran e.2)

theorem foldlM_note : ∀ (runs : List (Nat × Except RunFailure Outputs)) (c : Course) (t : Traced σ),
    ∃ c' t', (runs.map (outcomeAt g)).foldlM (note g) c t = (c', t') ∧ Told t t' ∧
      c'.report = (runs.map ranEntry).foldl (Report.enter g) c.report ∧
      ∀ n, n ∈ c'.lost ↔ n ∈ c.lost ∨ Ledger.lost (runs.map ranEntry) n = true
  | [], c, t => ⟨c, t, rfl, .rfl, rfl, fun n => by simp [Ledger.lost]⟩
  | (m, .ok outputs) :: runs, c, t => by
    obtain ⟨c', t', hfold, htold, hreport, hlost⟩ := foldlM_note runs
      { c with report := c.report.enter g (m, .ran (.ok outputs)) }
      (Action.tell (.builderSucceeded (g.idAt m) outputs.size) t).2
    refine ⟨c', t', ?_, (Told.tell _).trans htold, hreport, ?_⟩
    · rw [List.map_cons, List.foldlM_cons, Action.bind_apply, ← hfold]
      rfl
    · intro n
      rw [hlost]
      simp [Ledger.lost, ranEntry, Fate.isLost, Fate.isFailed]
  | (m, .error failure) :: runs, c, t => by
    obtain ⟨c', t', hfold, htold, hreport, hlost⟩ := foldlM_note runs
      ⟨c.report.enter g (m, .ran (.error failure)), m :: c.lost⟩
      (Action.tell (.builderFailed (g.idAt m) (failure.error (g.idAt m))) t).2
    refine ⟨c', t', ?_, (Told.tell _).trans htold, hreport, ?_⟩
    · rw [List.map_cons, List.foldlM_cons, Action.bind_apply, ← hfold]
      rfl
    · intro n
      have hentry : Ledger.lost (List.map ranEntry ((m, .error failure) :: runs)) n =
          (m == n || Ledger.lost (runs.map ranEntry) n) := by
        simp [Ledger.lost, ranEntry, Fate.isLost, Fate.isFailed]
      rw [hlost, hentry, Bool.or_eq_true, beq_iff_eq, List.mem_cons, or_assoc, eq_comm (a := m)]
      exact or_left_comm

/-- A builder's first lost prerequisite. -/
def firstLost (plan : Plan) (lost : List Nat) (n : Nat) : Option Nat :=
  (plan.prerequisitesOf n).find? lost.contains

theorem divide_eq (plan : Plan) (lost : List Nat) : ∀ wave : List Nat,
    divide plan lost wave = (wave.filter fun n => (firstLost plan lost n).isNone,
      wave.filterMap fun n => (firstLost plan lost n).map (n, ·))
  | [] => rfl
  | n :: rest => by
    have hfirst : (plan.prerequisitesOf n).find? lost.contains = firstLost plan lost n := rfl
    rw [divide, divide_eq plan lost rest, List.filter_cons, List.filterMap_cons, hfirst]
    cases firstLost plan lost n <;> rfl

theorem map_fst_skipped (plan : Plan) (lost : List Nat) : ∀ wave : List Nat,
    (wave.filterMap fun n => (firstLost plan lost n).map (n, ·)).map Prod.fst =
      wave.filter fun n => !(firstLost plan lost n).isNone
  | [] => rfl
  | n :: rest => by
    have ih := map_fst_skipped plan lost rest
    rw [List.filterMap_cons, List.filter_cons]
    cases firstLost plan lost n with
    | none => exact ih
    | some p => exact congrArg (n :: ·) ih

/-- Entries of builders to be skipped. -/
def skipEntry (e : Nat × Nat) : Nat × Fate := (e.1, .skipped e.2)

/-- Entries of builders that are held back. -/
def holdEntry (n : Nat) : Nat × Fate := (n, .heldBack)

theorem foldl_enter_skips : ∀ (l : List (Nat × Nat)) (r : Report),
    (l.map skipEntry).foldl (Report.enter g) r =
      { r with skipped := r.skipped ++ l.map fun (n, p) => (⟨g.idAt n, g.idAt p⟩ : Skipped) }
  | [], r => by simp
  | e :: l, r => by
    rw [List.map_cons, List.foldl_cons, foldl_enter_skips l]
    simp [Report.enter, skipEntry]

theorem foldl_enter_holds : ∀ (l : List Nat) (r : Report),
    (l.map holdEntry).foldl (Report.enter g) r =
      { r with notStarted := r.notStarted ++ l.map g.idAt }
  | [], r => by simp
  | n :: l, r => by
    rw [List.map_cons, List.foldl_cons, foldl_enter_holds l]
    simp [Report.enter, holdEntry]

theorem lost_skips (l : List (Nat × Nat)) (n : Nat) :
    Ledger.lost (l.map skipEntry) n = true ↔ n ∈ l.map Prod.fst := by
  rw [Ledger.lost_iff]
  constructor
  · rintro ⟨fate, he, -⟩
    obtain ⟨e, he, heq⟩ := List.mem_map.1 he
    exact List.mem_map.2 ⟨e, he, congrArg Prod.fst heq⟩
  · intro hn
    obtain ⟨e, he, rfl⟩ := List.mem_map.1 hn
    exact ⟨_, List.mem_map.2 ⟨e, he, rfl⟩, rfl⟩

theorem lost_holds (l : List Nat) (n : Nat) : Ledger.lost (l.map holdEntry) n = false := by
  refine Bool.eq_false_iff.2 ?_
  intro h
  obtain ⟨fate, he, hfate⟩ := Ledger.lost_iff.1 h
  obtain ⟨m, -, heq⟩ := List.mem_map.1 he
  cases heq
  cases hfate

theorem runs_skips (l : List (Nat × Nat)) : Ledger.runs (l.map skipEntry) = [] := by
  simp [Ledger.runs, skipEntry, List.filterMap_eq_nil_iff]

theorem runs_holds (l : List Nat) : Ledger.runs (l.map holdEntry) = [] := by
  simp [Ledger.runs, holdEntry, List.filterMap_eq_nil_iff]

theorem runs_ran : ∀ l : List (Nat × Except RunFailure Outputs),
    Ledger.runs (l.map ranEntry) = l
  | [] => rfl
  | e :: l => congrArg (e :: ·) (runs_ran l)

section Step

variable (config : Config) {schedule : Schedule} (plan : Plan) {earlier : Ledger} {c : Course}

/-- What is known when the builders of a wave that cannot run have been skipped. -/
def Course.skip (g : Graph (Builder σ)) (c : Course) (skipped : List (Nat × Nat)) : Course :=
  ⟨{ c.report with
      skipped := c.report.skipped ++ skipped.map fun (n, p) => (⟨g.idAt n, g.idAt p⟩ : Skipped) },
    skipped.map Prod.fst ++ c.lost⟩

theorem keeps_skip (hk : c.Keeps g earlier) (skipped : List (Nat × Nat)) :
    (Course.skip g c skipped).Keeps g (earlier ++ skipped.map skipEntry) := by
  refine hk.append g (foldl_enter_skips skipped c.report).symm ?_
  intro n
  rw [lost_skips]
  unfold Course.skip
  rw [List.mem_append]
  exact or_comm

theorem firstLost_eq (hk : c.Keeps g earlier) (n : Nat) :
    firstLost plan c.lost n = (plan.prerequisitesOf n).find? earlier.lost := by
  have hlost : c.lost.contains = earlier.lost := by
    funext m
    rw [Bool.eq_iff_iff, List.contains_iff_mem]
    exact hk.lost m
  rw [firstLost, hlost]

theorem arranged_divide (hk : c.Keeps g earlier) (wave : List Nat) :
    (divide plan c.lost wave).2.map Prod.fst ++ (divide plan c.lost wave).1 =
      arranged plan earlier.lost wave := by
  rw [divide_eq]
  show List.map Prod.fst _ ++ _ = _
  rw [map_fst_skipped]
  unfold arranged
  simp only [firstLost_eq plan hk]

/-- A builder is skipped for its first lost prerequisite, and only if it has one. -/
theorem due_skipped (hk : c.Keeps g earlier) (stopped : Bool) (wave : List Nat) :
    ∀ e ∈ (divide plan c.lost wave).2.map skipEntry, Due plan earlier.lost stopped e := by
  intro e he
  obtain ⟨⟨n, p⟩, hp, rfl⟩ := List.mem_map.1 he
  rw [divide_eq, List.mem_filterMap] at hp
  obtain ⟨m, -, hm⟩ := hp
  rw [firstLost_eq plan hk] at hm
  obtain ⟨q, hq, heq⟩ := Option.map_eq_some_iff.1 hm
  cases heq
  exact hq

theorem find?_ready (hk : c.Keeps g earlier) {wave : List Nat} {n : Nat}
    (hn : n ∈ (divide plan c.lost wave).1) :
    (plan.prerequisitesOf n).find? earlier.lost = none := by
  rw [divide_eq] at hn
  rw [← firstLost_eq plan hk]
  exact Option.isNone_iff_eq_none.1 (List.mem_filter.1 hn).2

/-- What a step does with the builders that can run. -/
def dispatch (g : Graph (Builder σ)) (config : Config) (schedule : Schedule) (number : Nat)
    (ready : List Nat) (c : Course) : Action σ Course := do
  if ready.isEmpty then return c
  if config.failFast && !c.report.failed.isEmpty then
    Action.tell (.waveHeldBack number ready.length)
    return { c with report := { c.report with
      notStarted := c.report.notStarted ++ ready.map g.idAt } }
  Action.tell (.waveDispatched number ready.length)
  (← runWave g config.parallelism schedule ready).foldlM (note g) c

theorem step_eq (g : Graph (Builder σ)) (schedule : Schedule) (number : Nat) (wave : List Nat)
    (c : Course) (t : Traced σ) :
    ∃ t₁, Told t t₁ ∧ step g config schedule plan number wave c t =
      dispatch g config schedule number (divide plan c.lost wave).1
        (Course.skip g c (divide plan c.lost wave).2) t₁ :=
  ⟨_, .tellAll _, rfl⟩

/-- Builders that can run all run, or they are all held back. -/
theorem dispatch_spec (hschedule : ∀ wave, (schedule wave).Perm wave) (hk : c.Keeps g earlier)
    {ready : List Nat} (hascending : ready.Pairwise (· < ·)) (hlt : ∀ n ∈ ready, n < g.size)
    {lost : Nat → Bool} {stopped : Bool}
    (hready : ∀ n ∈ ready, (plan.prerequisitesOf n).find? lost = none)
    (hstopped : (config.failFast && !c.report.failed.isEmpty) = stopped) (number : Nat)
    (t : Traced σ) :
    ∃ (l : Ledger) (runs : List (Nat × Except RunFailure Outputs)) (c' : Course) (t' : Traced σ),
      dispatch g config schedule number ready c t = (c', t') ∧ l.map Prod.fst = ready ∧
      (∀ e ∈ l, Due plan lost stopped e) ∧ c'.Keeps g (earlier ++ l) ∧
      Runs g t runs t' ∧ l.runs.Perm runs := by
  unfold dispatch
  rw [hstopped]
  by_cases hempty : ready.isEmpty = true
  · rw [if_pos hempty, List.isEmpty_iff.1 hempty]
    exact ⟨[], [], c, t, rfl, rfl, nofun, by rwa [List.append_nil], .done .rfl, .rfl⟩
  rw [if_neg hempty]
  by_cases hhold : stopped = true
  · rw [if_pos hhold]
    refine ⟨ready.map holdEntry, [], _, _, rfl, ?_, ?_, ?_, .done (Told.tell _), ?_⟩
    · rw [List.map_map]
      exact List.map_id _
    · intro e he
      obtain ⟨n, hn, rfl⟩ := List.mem_map.1 he
      exact ⟨hready n hn, hhold⟩
    · refine hk.append g (foldl_enter_holds ready c.report).symm ?_
      intro n
      rw [lost_holds]
      exact ⟨Or.inl, fun h => h.elim id fun h => nomatch h⟩
    · rw [runs_holds]
  · rw [if_neg hhold]
    obtain ⟨runs, counted, t₂, hwave, hcounted, hplaces, hruns⟩ :=
      runWave_spec config.parallelism hschedule hascending hlt
        (Action.tell (.waveDispatched number ready.length) t).2
    obtain ⟨c', t', hfold, htold, hreport, hlost⟩ := foldlM_note (g := g) counted c t₂
    refine ⟨counted.map ranEntry, runs, c', t', ?_, ?_, ?_, hk.append g hreport hlost,
      .told_left (Told.tell _) (hruns.told_right htold), by rwa [runs_ran]⟩
    · show (runWave g config.parallelism schedule ready >>= _)
        (Action.tell (.waveDispatched number ready.length) t).2 = _
      rw [Action.bind_apply, hwave]
      exact hfold
    · rw [List.map_map]
      exact hplaces
    · intro e he
      obtain ⟨r, hr, rfl⟩ := List.mem_map.1 he
      have hn : r.1 ∈ counted.map Prod.fst := List.mem_map.2 ⟨r, hr, rfl⟩
      rw [hplaces] at hn
      exact ⟨hready r.1 hn, Bool.not_eq_true _ ▸ hhold⟩

theorem step_spec (hschedule : ∀ wave, (schedule wave).Perm wave) (hk : c.Keeps g earlier)
    {wave : List Nat} (hascending : wave.Pairwise (· < ·)) (hlt : ∀ n ∈ wave, n < g.size)
    (number : Nat) (t : Traced σ) :
    ∃ (l : Ledger) (runs : List (Nat × Except RunFailure Outputs)) (c' : Course) (t' : Traced σ),
      step g config schedule plan number wave c t = (c', t') ∧
      l.map Prod.fst = arranged plan earlier.lost wave ∧
      (∀ e ∈ l, Due plan earlier.lost (config.failFast && earlier.someFailed) e) ∧
      c'.Keeps g (earlier ++ l) ∧
      Runs g t runs t' ∧ l.runs.Perm runs := by
  obtain ⟨t₁, htold, hstep⟩ := step_eq config plan g schedule number wave c t
  have harranged := arranged_divide plan hk wave
  have hsub : (divide plan c.lost wave).1.Sublist wave := by
    rw [divide_eq]
    exact List.filter_sublist
  have hskipped := due_skipped plan hk (config.failFast && earlier.someFailed) wave
  have hready : ∀ n ∈ (divide plan c.lost wave).1,
      (plan.prerequisitesOf n).find? earlier.lost = none := fun n => find?_ready plan hk
  generalize divide plan c.lost wave = parts at hstep harranged hsub hskipped hready
  obtain ⟨ready, skipped⟩ := parts
  have hstopped : (config.failFast && !(Course.skip g c skipped).report.failed.isEmpty) =
      (config.failFast && earlier.someFailed) := by
    have hfailed : c.report.failed.isEmpty = !earlier.someFailed := hk.isEmpty_failed
    show (config.failFast && !c.report.failed.isEmpty) = _
    rw [hfailed, Bool.not_not]
  obtain ⟨l, runs, c', t', hdispatch, hkeys, hdue, hkeeps, hruns, hcounted⟩ :=
    dispatch_spec config plan hschedule (keeps_skip hk skipped) (hascending.sublist hsub)
      (fun n hn => hlt n (hsub.subset hn)) hready hstopped number t₁
  refine ⟨skipped.map skipEntry ++ l, runs, c', t', hstep.trans hdispatch, ?_, ?_, ?_,
    hruns.told_left htold, ?_⟩
  · have hskips : (skipped.map skipEntry).map Prod.fst = skipped.map Prod.fst := by
      rw [List.map_map]
      rfl
    rw [List.map_append, hskips, hkeys, harranged]
  · intro e he
    exact (List.mem_append.1 he).elim (hskipped e) (hdue e)
  · rw [← List.append_assoc]
    exact hkeeps
  · rw [Ledger.runs_append, runs_skips]
    exact hcounted

/-- A run settles what is due, wave by wave. -/
theorem runWaves_spec (hschedule : ∀ wave, (schedule wave).Perm wave) :
    ∀ {waves : List (List Nat)} {earlier : Ledger} {c : Course}, c.Keeps g earlier →
      (∀ wave ∈ waves, wave.Pairwise (· < ·)) → (∀ n ∈ waves.flatten, n < g.size) →
      ∀ (number : Nat) (t : Traced σ),
      ∃ (ledgers : List Ledger) (runs : List (Nat × Except RunFailure Outputs)) (c' : Course)
        (t' : Traced σ),
        runWaves g config schedule plan number waves c t = (c', t') ∧
        Settled plan config.failFast earlier waves ledgers ∧
        c'.Keeps g (earlier ++ ledgers.flatten) ∧ Runs g t runs t' ∧
        (Ledger.runs ledgers.flatten).Perm runs
  | [], earlier, c, hk, _, _, number, t =>
    ⟨[], [], c, t, rfl, trivial, by simpa using hk, .done .rfl, .rfl⟩
  | wave :: rest, earlier, c, hk, hascending, hlt, number, t => by
    obtain ⟨l, runs₁, c₁, t₁, hstep, hkeys, hdue, hk₁, hruns₁, hl⟩ :=
      step_spec config plan hschedule hk (hascending wave List.mem_cons_self)
        (fun n hn => hlt n (List.mem_append_left _ hn)) number t
    obtain ⟨ledgers, runs₂, c', t', hwaves, hsettled, hk', hruns₂, hls⟩ :=
      runWaves_spec hschedule hk₁ (fun w hw => hascending w (List.mem_cons_of_mem _ hw))
        (fun n hn => hlt n (List.mem_append_right _ hn)) (number + 1) t₁
    refine ⟨l :: ledgers, runs₁ ++ runs₂, c', t', ?_, ⟨hkeys, hdue, hsettled⟩, ?_,
      hruns₁.append hruns₂, ?_⟩
    · rw [runWaves, Action.bind_apply, hstep]
      exact hwaves
    · rw [List.flatten_cons, ← List.append_assoc]
      exact hk'
    · rw [List.flatten_cons, Ledger.runs_append]
      exact hl.append hls

end Step

/-- A run of a plan reports a settled ledger. -/
theorem runPlan_settled {plan : Plan} (config : Config) {schedule : Schedule}
    (hschedule : ∀ wave, (schedule wave).Perm wave) (hplan : plan.Sound g) (t : Traced σ) :
    ∃ (ledgers : List Ledger) (runs : List (Nat × Except RunFailure Outputs)) (t' : Traced σ),
      runPlan g config schedule plan t = (Ledger.report g ledgers.flatten, t') ∧
      Settled plan config.failFast [] plan.waves ledgers ∧ Runs g t runs t' ∧
      (Ledger.runs ledgers.flatten).Perm runs := by
  -- whether the log is told of pruning makes no difference
  have hrest (t₁ : Traced σ) (htold : Told t t₁) : ∃ ledgers runs t',
      (do
        Action.tell (.planned plan.waves.length plan.size)
        let c ← runWaves g config schedule plan 0 plan.waves {}
        Action.tell (.buildFinished c.report.executed.length c.report.failed.length
          c.report.skipped.length c.report.notStarted.length)
        return c.report : Action σ Report) t₁ = (Ledger.report g (List.flatten ledgers), t') ∧
      Settled plan config.failFast [] plan.waves ledgers ∧ Runs g t runs t' ∧
      (Ledger.runs ledgers.flatten).Perm runs := by
    have hstart : Course.Keeps g {} [] := ⟨rfl, fun n => by simp [Ledger.lost]⟩
    obtain ⟨ledgers, runs, c', t₂, hwaves, hsettled, hk, hruns, hperm⟩ :=
      runWaves_spec config plan hschedule hstart hplan.layers.ascending hplan.lt 0
        (Action.tell (.planned plan.waves.length plan.size) t₁).2
    rw [List.nil_append] at hk
    refine ⟨ledgers, runs, (Action.tell (.buildFinished c'.report.executed.length
      c'.report.failed.length c'.report.skipped.length c'.report.notStarted.length) t₂).2, ?_,
      hsettled, ?_, hperm⟩
    · rw [Action.bind_apply, Action.bind_apply, hwaves, ← hk.report]
      rfl
    · exact ((hruns.told_right (.tell _)).told_left (.tell _)).told_left htold
  unfold runPlan
  split
  · exact hrest _ (.tell _)
  · exact hrest _ .rfl

end Context

end Rebuild
