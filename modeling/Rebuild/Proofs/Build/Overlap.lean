import Rebuild.Proofs.Build.Endings
import Rebuild.Proofs.Build.Pool

/-!
# Builds whose builders overlap

If it is settled how every builder ends, whoever runs beside it, then all that a
build decides is settled: when a wave is closed, its ledger is the one that is due,
whatever order the results came in. Builders are started in time, once, and a build
that is not over can go on.

* `Machine.Inv`: what holds in the course of a build.
* `Machine.Step.inv`, `Machine.Inv.exists_step`: every move keeps it, and there is a move.
* `Orderly.finished_before`: whoever is needed, however far off, finishes in time.
* `Context.execute_overlapped`: what a build comes to with any number of permits.
-/
namespace Rebuild

/-! ## The course of a build -/

namespace Machine

section Inv

variable {σ : Type} (g : Graph (Builder σ)) (config : Config) (plan : Plan)
  (ends : Nat → Except RunFailure Outputs)

/-- The waves that are closed have ledgers, which tell who was started before the open wave. -/
structure Settles (m : Machine) (closed : List (List Nat)) (ledgers : List Ledger)
    (begun : List Nat) : Prop where
  settled : Settled plan config.failFast [] closed ledgers
  endsAs : Ledger.EndsAs ledgers.flatten ends
  finished : ∀ n result, (n, Fate.ran result) ∈ ledgers.flatten → .finish n result ∈ m.moments
  orderly : Orderly plan m.moments
  started : (started m.moments).Perm ((Ledger.runs ledgers.flatten).map Prod.fst ++ begun)
  inOrder : config.parallelism ≤ 1 →
    Rebuild.started m.moments = (Ledger.runs ledgers.flatten).map Prod.fst ++ begun

/-- Of the open wave some builders were skipped, and the others are run by tasks. -/
structure Runs (m : Machine) (earlier : Ledger) (wave : List Nat) (skipped : List (Nat × Nat))
    (ready : List Nat) (p : Pool) : Prop where
  keeps : m.course.Keeps g (earlier ++ skipped.map Context.skipEntry)
  keys : skipped.map Prod.fst ++ ready = arranged plan earlier.lost wave
  due : ∀ e ∈ skipped.map Context.skipEntry,
    Due plan earlier.lost (config.failFast && earlier.someFailed) e
  unhindered : ∀ n ∈ ready, (plan.prerequisitesOf n).find? earlier.lost = none
  ascending : ready.Pairwise (· < ·)
  going : (config.failFast && earlier.someFailed) = false
  sound : p.Sound g ends config.parallelism ready
  finished : ∀ task ∈ p.tasks, task.isWaiting = false → task.isRunning = false →
    .finish task.place (ends task.place) ∈ m.moments

/-- What holds in the course of a build. -/
inductive Inv (m : Machine) : Prop
  | idle (closed : List (List Nat)) (ledgers : List Ledger) (pool : m.pool = none)
      (waves : plan.waves = closed ++ m.waves) (keeps : m.course.Keeps g ledgers.flatten)
      (settles : m.Settles config plan ends closed ledgers [])
  | busy (closed : List (List Nat)) (ledgers : List Ledger) (wave : List Nat)
      (skipped : List (Nat × Nat)) (ready : List Nat) (p : Pool) (pool : m.pool = some p)
      (waves : plan.waves = closed ++ wave :: m.waves)
      (settles : m.Settles config plan ends closed ledgers p.begun)
      (runs : m.Runs g config plan ends ledgers.flatten wave skipped ready p)

theorem inv_start : Inv g config plan ends { waves := plan.waves } := by
  refine .idle [] [] rfl rfl ⟨rfl, fun n => by simp [Ledger.lost]⟩ ?_
  exact ⟨trivial, fun _ _ he => absurd he List.not_mem_nil,
    fun _ _ he => absurd he List.not_mem_nil,
    trivial, .nil, fun _ => rfl⟩

end Inv

section Step

variable {σ : Type} {g : Graph (Builder σ)} {config : Config} {plan : Plan}
  {ends : Nat → Except RunFailure Outputs} {m : Machine} {closed : List (List Nat)}
  {ledgers : List Ledger} {wave : List Nat} {rest : List (List Nat)} {skipped : List (Nat × Nat)}
  {ready : List Nat} {p : Pool} {before after : List Task} {task : Task}

theorem stopped_eq {l : Ledger} (h : m.course.Keeps g l) :
    m.stopped config = (config.failFast && l.someFailed) := by
  unfold stopped
  rw [h.isEmpty_failed, Bool.not_not]

theorem Settles.close {begun : List Nat} (h : m.Settles config plan ends closed ledgers begun)
    {l : Ledger} (hkeys : l.map Prod.fst = arranged plan (Ledger.lost ledgers.flatten) wave)
    (hdue : ∀ e ∈ l, Due plan (Ledger.lost ledgers.flatten)
      (config.failFast && Ledger.someFailed ledgers.flatten) e)
    (hends : l.EndsAs ends) (hbegun : l.runs.map Prod.fst = begun)
    (hfinished : ∀ n result, (n, Fate.ran result) ∈ l → .finish n result ∈ m.moments)
    {m' : Machine} (hmoments : m'.moments = m.moments) :
    m'.Settles config plan ends (closed ++ [wave]) (ledgers ++ [l]) [] := by
  have hflatten : (ledgers ++ [l]).flatten = ledgers.flatten ++ l := by simp
  have hruns : (Ledger.runs (ledgers.flatten ++ l)).map Prod.fst ++ [] =
      (Ledger.runs ledgers.flatten).map Prod.fst ++ begun := by
    rw [List.append_nil, Ledger.runs_append, List.map_append, hbegun]
  refine ⟨h.settled.snoc hkeys hdue, ?_, ?_, hmoments ▸ h.orderly, ?_, ?_⟩
  · rw [hflatten]
    exact fun n r he => (List.mem_append.1 he).elim (h.endsAs n r) (hends n r)
  · rw [hflatten, hmoments]
    exact fun n r he => (List.mem_append.1 he).elim (h.finished n r) (hfinished n r)
  · rw [hflatten, hruns, hmoments]
    exact h.started
  · rw [hflatten, hruns, hmoments]
    exact h.inOrder

theorem inv_pass (hplan : plan.Sound g) (hidle : m.pool = none) (hwaves : m.waves = wave :: rest)
    (hnobody : (Context.divide plan m.course.lost wave).1 = [] ∨ m.stopped config = true)
    (number : Nat) (t : Traced σ) (h : m.Inv g config plan ends) :
    Inv g config plan ends { m with
      waves := rest
      course := (Context.step g config id plan number wave m.course t).1 } := by
  cases h with
  | busy _ _ _ _ _ _ hpool => rw [hidle] at hpool; cases hpool
  | idle closed ledgers _ hall hkeeps hsettles =>
    rw [hwaves] at hall
    have hwave : wave ∈ plan.waves := hall ▸ List.mem_append_right _ List.mem_cons_self
    have hschedule : ∀ wave : List Nat, (id wave).Perm wave := fun _ => .rfl
    obtain ⟨l, runs, c', t', hstep, hkeys, hdue, hkeeps', -, -⟩ :=
      Context.step_spec config plan hschedule hkeeps
        (hplan.layers.ascending wave hwave)
        (fun n hn => hplan.lt n (List.mem_flatten.2 ⟨wave, hwave, hn⟩)) number t
    have hnone : ∀ n result, (n, Fate.ran result) ∉ l := by
      intro n result he
      obtain ⟨hfind, hgoing⟩ := hdue _ he
      rcases hnobody with hready | hstopped
      · have hn : n ∈ wave :=
          (perm_arranged plan _ wave).mem_iff.1 (hkeys ▸ List.mem_map.2 ⟨_, he, rfl⟩)
        rw [Context.divide_eq] at hready
        refine List.filter_eq_nil_iff.1 hready n hn ?_
        rw [Context.firstLost_eq plan hkeeps, hfind]
        rfl
      · rw [stopped_eq hkeeps, hgoing] at hstopped
        cases hstopped
    have hruns : l.runs.map Prod.fst = [] := by
      rw [List.map_eq_nil_iff, List.eq_nil_iff_forall_not_mem]
      exact fun e he => hnone e.1 e.2 (Ledger.mem_runs.1 he)
    refine .idle (closed ++ [wave]) (ledgers ++ [l]) hidle ?_ ?_ ?_
    · rw [hall, List.append_assoc]
      rfl
    · rw [hstep, List.flatten_append, List.flatten_singleton]
      exact hkeeps'
    · exact hsettles.close hkeys hdue (fun n r he => (hnone n r he).elim) hruns
        (fun n r he => (hnone n r he).elim) rfl

theorem inv_dispatch (hplan : plan.Sound g) (hidle : m.pool = none)
    (hwaves : m.waves = wave :: rest) (hgoing : m.stopped config = false) {numbers : List Nat}
    (hdistinct : numbers.Nodup)
    (hlength : numbers.length = (Context.divide plan m.course.lost wave).1.length)
    (h : m.Inv g config plan ends) :
    Inv g config plan ends { m with
      waves := rest
      course := Context.Course.skip g m.course (Context.divide plan m.course.lost wave).2
      pool := some (.spawn numbers (Context.divide plan m.course.lost wave).1) } := by
  cases h with
  | busy _ _ _ _ _ _ hpool => rw [hidle] at hpool; cases hpool
  | idle closed ledgers _ hall hkeeps hsettles =>
    rw [hwaves] at hall
    have hwave : wave ∈ plan.waves := hall ▸ List.mem_append_right _ List.mem_cons_self
    refine .busy closed ledgers wave _ _ _ rfl hall ?_
      ⟨Context.keeps_skip hkeeps _, Context.arranged_divide plan hkeeps wave,
        Context.due_skipped plan hkeeps _ wave, fun n => Context.find?_ready plan hkeeps, ?_, ?_,
        Pool.sound_spawn hdistinct hlength, ?_⟩
    · rw [Pool.begun_spawn]
      obtain ⟨hsettled, hends, hfinished, horderly, hstarted, hinOrder⟩ := hsettles
      exact ⟨hsettled, hends, hfinished, horderly, hstarted, hinOrder⟩
    · refine (hplan.layers.ascending wave hwave).sublist ?_
      rw [Context.divide_eq]
      exact List.filter_sublist
    · rw [← stopped_eq hkeeps]
      exact hgoing
    · intro task ht hwaiting
      obtain ⟨e, -, rfl⟩ := List.mem_map.1 ht
      cases hwaiting

theorem Runs.mem_wave {earlier : Ledger}
    (h : m.Runs g config plan ends earlier wave skipped ready p) : ∀ n ∈ ready, n ∈ wave :=
  fun _ hn => (perm_arranged plan _ wave).mem_iff.1 (h.keys ▸ List.mem_append_right _ hn)

theorem Runs.begun_sublist {earlier : Ledger}
    (h : m.Runs g config plan ends earlier wave skipped ready p) : p.begun.Sublist ready := by
  rw [← h.sound.places]
  exact List.filter_sublist.map _

/-- What a builder that can run needs directly has finished with outputs. -/
theorem finished_prerequisites (hplan : plan.Sound g) (hall : plan.waves = closed ++ wave :: rest)
    (hsettles : m.Settles config plan ends closed ledgers p.begun)
    (hruns : m.Runs g config plan ends ledgers.flatten wave skipped ready p) {n : Nat}
    (hn : n ∈ ready) :
    ∀ k ∈ plan.prerequisitesOf n, ∃ outputs, .finish k (.ok outputs) ∈ m.moments := by
  intro k hk
  have hwave := hruns.mem_wave n hn
  have hearlier : k ∈ closed.flatten := by
    have hlayers := hplan.layers
    rw [hall] at hlayers
    exact (hlayers.mem_before n hwave k hk).resolve_left List.not_mem_nil
  obtain ⟨⟨k, fate⟩, he, rfl⟩ := List.mem_map.1 (hsettles.settled.perm.mem_iff.2 hearlier)
  have hlost := List.find?_eq_none.1 (hruns.unhindered n hn) k hk
  rcases fate with (failure | outputs) | q | _
  · exact absurd (Ledger.lost_iff.2 ⟨_, he, rfl⟩) hlost
  · exact ⟨outputs, hsettles.finished k _ he⟩
  · exact absurd (Ledger.lost_iff.2 ⟨_, he, rfl⟩) hlost
  · exact absurd he (hsettles.settled.not_heldBack hruns.going k)

theorem inv_started (hplan : plan.Sound g) (hpool : m.pool = some p)
    (htasks : p.tasks = before ++ task :: after) (hstage : task.stage = .waiting)
    (hpermit : p.MayStart config.parallelism before) (h : m.Inv g config plan ends) :
    Inv g config plan ends { m with
      pool := some (p.advance before task after .running)
      moments := .start task.place :: m.moments } := by
  cases h with
  | idle _ _ hidle => rw [hpool] at hidle; cases hidle
  | busy closed ledgers wave skipped ready p' hpool' hall hsettles hruns =>
    obtain rfl : p = p' := Option.some.inj (hpool.symm.trans hpool')
    have hmem : task ∈ p.tasks := htasks ▸ List.mem_append_right _ List.mem_cons_self
    have hwaiting : task.isWaiting = true := by simp [Task.isWaiting, hstage]
    have hready : task.place ∈ ready := hruns.sound.places ▸ List.mem_map_of_mem hmem
    have hprerequisites := finished_prerequisites hplan hall hsettles hruns hready
    refine .busy closed ledgers wave skipped ready _ rfl hall ?_ ?_
    · obtain ⟨hsettled, hends, hfinished, horderly, hstarted, hinOrder⟩ := hsettles
      refine ⟨hsettled, hends, fun n r he => List.mem_cons_of_mem _ (hfinished n r he),
        ⟨hprerequisites, horderly⟩, ?_, fun hone => ?_⟩
      · refine ((hstarted.append_right _).trans ?_)
        rw [List.append_assoc]
        exact (Pool.begun_start htasks hwaiting).symm.append_left _
      · show started m.moments ++ [task.place] = _
        rw [hinOrder hone, hruns.sound.begun_start htasks hwaiting hone, List.append_assoc]
    · obtain ⟨hkeeps, hkeys, hdue, hunhindered, hascending, hgoing, hsound, hfinished⟩ := hruns
      refine ⟨hkeeps, hkeys, hdue, hunhindered, hascending, hgoing, ?_, ?_⟩
      · refine hsound.advance_of_not_collected htasks (fun _ heq => by cases heq) rfl
          (fun hone a ha => ?_)
          (by simp [Task.isCollected, hstage]) rfl
        unfold Pool.MayStart at hpermit
        rw [if_pos hone] at hpermit
        exact (Task.begun_of_collected (hpermit a ha)).1
      · refine forall_mem_replaced htasks (fun other ho hw hr => ?_) fun _ hr => by cases hr
        exact List.mem_cons_of_mem _ (hfinished other ho hw hr)

theorem inv_finished (hpool : m.pool = some p) (htasks : p.tasks = before ++ task :: after)
    (hstage : task.stage = .running) {result : Except RunFailure Outputs}
    (hresult : result = ends task.place) (h : m.Inv g config plan ends) :
    Inv g config plan ends { m with
      pool := some (p.advance before task after (.ended result))
      moments := .finish task.place result :: m.moments } := by
  cases h with
  | idle _ _ hidle => rw [hpool] at hidle; cases hidle
  | busy closed ledgers wave skipped ready p' hpool' hall hsettles hruns =>
    obtain rfl : p = p' := Option.some.inj (hpool.symm.trans hpool')
    have hmem : task ∈ p.tasks := htasks ▸ List.mem_append_right _ List.mem_cons_self
    have hbegun : task.isWaiting = false := by simp [Task.isWaiting, hstage]
    have hstart : .start task.place ∈ m.moments := by
      rw [← mem_started, hsettles.started.mem_iff]
      refine List.mem_append_right _ (List.mem_map_of_mem (List.mem_filter.2 ⟨hmem, ?_⟩))
      rw [hbegun]
      rfl
    refine .busy closed ledgers wave skipped ready _ rfl hall ?_ ?_
    · rw [Pool.begun_advance htasks hbegun rfl]
      obtain ⟨hsettled, hends, hfinished, horderly, hstarted, hinOrder⟩ := hsettles
      exact ⟨hsettled, hends, fun n r he => List.mem_cons_of_mem _ (hfinished n r he),
        ⟨hstart, horderly⟩, hstarted, hinOrder⟩
    · obtain ⟨hkeeps, hkeys, hdue, hunhindered, hascending, hgoing, hsound, hfinished⟩ := hruns
      refine ⟨hkeeps, hkeys, hdue, hunhindered, hascending, hgoing, ?_, ?_⟩
      · refine hsound.advance_of_not_collected htasks (fun r hr => ?_) rfl
          (hsound.begun_before htasks hbegun) (by simp [Task.isCollected, hstage]) rfl
        cases hr
        exact hresult
      · refine forall_mem_replaced htasks (fun other ho hw hr => ?_) fun _ _ => ?_
        · exact List.mem_cons_of_mem _ (hfinished other ho hw hr)
        · exact hresult ▸ List.mem_cons_self

theorem inv_collected (hpool : m.pool = some p) (htasks : p.tasks = before ++ task :: after)
    {result : Except RunFailure Outputs} (hstage : task.stage = .ended result)
    (h : m.Inv g config plan ends) :
    Inv g config plan ends { m with
      pool := some ((p.advance before task after .collected).collect g task.number result) } := by
  cases h with
  | idle _ _ hidle => rw [hpool] at hidle; cases hidle
  | busy closed ledgers wave skipped ready p' hpool' hall hsettles hruns =>
    obtain rfl : p = p' := Option.some.inj (hpool.symm.trans hpool')
    have hmem : task ∈ p.tasks := htasks ▸ List.mem_append_right _ List.mem_cons_self
    have hbegun : task.isWaiting = false := by simp [Task.isWaiting, hstage]
    refine .busy closed ledgers wave skipped ready _ rfl hall ?_ ?_
    · rw [Pool.begun_collect, Pool.begun_advance htasks hbegun rfl]
      obtain ⟨hsettled, hends, hfinished, horderly, hstarted, hinOrder⟩ := hsettles
      exact ⟨hsettled, hends, hfinished, horderly, hstarted, hinOrder⟩
    · obtain ⟨hkeeps, hkeys, hdue, hunhindered, hascending, hgoing, hsound, hfinished⟩ := hruns
      refine ⟨hkeeps, hkeys, hdue, hunhindered, hascending, hgoing, hsound.collect htasks hstage,
        ?_⟩
      rw [Pool.tasks_collect]
      refine forall_mem_replaced htasks hfinished fun _ _ => ?_
      exact hfinished task hmem hbegun (by simp [Task.isRunning, hstage])

theorem inv_closed (hpool : m.pool = some p) (hdone : ∀ task ∈ p.tasks, task.isCollected = true)
    (t : Traced σ) (h : m.Inv g config plan ends) :
    Inv g config plan ends { m with
      course := (p.sorted.foldlM (Context.note g) m.course t).1
      pool := none } := by
  cases h with
  | idle _ _ hidle => rw [hpool] at hidle; cases hidle
  | busy closed ledgers wave skipped ready p' hpool' hall hsettles hruns =>
    obtain rfl : p = p' := Option.some.inj (hpool.symm.trans hpool')
    have hbegun := Pool.begun_of_done hruns.sound hdone
    obtain ⟨hkeeps, hkeys, hdue, hunhindered, hascending, hgoing, hsound, hfinished⟩ := hruns
    have hsorted := hsound.sorted hascending hdone
    let counted := ready.map fun n => (n, ends n)
    have houtcomes : p.sorted = counted.map (Context.outcomeAt g) := by
      rw [hsorted, List.map_map]
      rfl
    obtain ⟨c', t', hfold, -, hreport, hlost⟩ := Context.foldlM_note (g := g) counted m.course t
    have hkeeps' := hkeeps.append g hreport hlost
    have hran : ∀ n result, (n, Fate.ran result) ∈
        skipped.map Context.skipEntry ++ counted.map Context.ranEntry →
        n ∈ ready ∧ result = ends n := by
      intro n result he
      rcases List.mem_append.1 he with he | he
      · obtain ⟨e, -, heq⟩ := List.mem_map.1 he
        cases heq
      · obtain ⟨r, hr, heq⟩ := List.mem_map.1 he
        obtain ⟨k, hk, rfl⟩ := List.mem_map.1 hr
        cases heq
        exact ⟨hk, rfl⟩
    refine .idle (closed ++ [wave])
      (ledgers ++ [skipped.map Context.skipEntry ++ counted.map Context.ranEntry]) rfl ?_ ?_ ?_
    · rw [hall, List.append_assoc]
      rfl
    · rw [houtcomes, hfold, List.flatten_append, List.flatten_singleton, ← List.append_assoc]
      exact hkeeps'
    · refine hsettles.close ?_ ?_ (fun n result he => (hran n result he).2) ?_ ?_ rfl
      · rw [List.map_append, List.map_map, List.map_map, List.map_map, ← hkeys]
        exact congrArg _ (List.map_id ready)
      · intro e he
        rcases List.mem_append.1 he with he | he
        · exact hdue e he
        · obtain ⟨r, hr, rfl⟩ := List.mem_map.1 he
          obtain ⟨k, hk, rfl⟩ := List.mem_map.1 hr
          exact ⟨hunhindered k hk, hgoing⟩
      · rw [Ledger.runs_append, Context.runs_skips, Context.runs_ran, List.nil_append, hbegun,
          List.map_map]
        exact List.map_id ready
      · intro n result he
        obtain ⟨hn, rfl⟩ := hran n result he
        obtain ⟨task, ht, rfl⟩ := List.mem_map.1 (hsound.places ▸ hn)
        obtain ⟨hwaiting, hrunning⟩ := Task.begun_of_collected (hdone task ht)
        exact hfinished task ht hwaiting hrunning

/-- Every move keeps what holds in the course of a build. -/
theorem Step.inv (hplan : plan.Sound g)
    (hends : ∀ n id b, g.nodes[n]? = some (id, b) → ∀ t : Traced σ, (b.run t).1 = ends n)
    {m' : Machine} (hstep : Step g config plan m m') (h : m.Inv g config plan ends) :
    m'.Inv g config plan ends := by
  cases hstep with
  | pass idle waves nobody number t => exact inv_pass hplan idle waves nobody number t h
  | dispatch idle waves somebody going distinct length =>
    exact inv_dispatch hplan idle waves going distinct length h
  | start pool tasks stage permit => exact inv_started hplan pool tasks stage permit h
  | finish pool tasks stage node t =>
    exact inv_finished pool tasks stage (hends _ _ _ node t) h
  | collect pool tasks stage => exact inv_collected pool tasks stage h
  | close pool done t => exact inv_closed pool done t h

theorem Steps.inv (hplan : plan.Sound g)
    (hends : ∀ n id b, g.nodes[n]? = some (id, b) → ∀ t : Traced σ, (b.run t).1 = ends n)
    (hsteps : Steps g config plan { waves := plan.waves } m) : m.Inv g config plan ends := by
  induction hsteps with
  | refl => exact inv_start g config plan ends
  | tail _ hstep ih => exact hstep.inv hplan hends ih

/-! ### Going on -/

theorem exists_first_open : ∀ {tasks : List Task}, (∃ task ∈ tasks, task.isCollected = false) →
    ∃ before task after, tasks = before ++ task :: after ∧ task.isCollected = false ∧
      ∀ other ∈ before, other.isCollected = true
  | [], ⟨_, ht, _⟩ => (List.not_mem_nil ht).elim
  | first :: tasks, ⟨task, ht, hopen⟩ => by
    cases hfirst : first.isCollected with
    | false => exact ⟨[], first, tasks, rfl, hfirst, nofun⟩
    | true =>
      have hrest : task ∈ tasks := (List.mem_cons.1 ht).resolve_left fun heq => by
        rw [heq, hfirst] at hopen
        cases hopen
      obtain ⟨before, other, after, rfl, hother, hbefore⟩ := exists_first_open ⟨task, hrest, hopen⟩
      exact ⟨first :: before, other, after, rfl, hother, List.forall_mem_cons.2 ⟨hfirst, hbefore⟩⟩

/-- As long as a wave is open there is a move. -/
theorem Runs.exists_step {earlier : Ledger} (hpool : m.pool = some p)
    (h : m.Runs g config plan ends earlier wave skipped ready p) (hlt : ∀ n ∈ ready, n < g.size)
    (t : Traced σ) : ∃ m', Step g config plan m m' := by
  by_cases hrunning : ∃ task ∈ p.tasks, task.stage = .running
  · obtain ⟨task, ht, hstage⟩ := hrunning
    obtain ⟨before, after, htasks⟩ := List.append_of_mem ht
    have hn : task.place < g.nodes.length := hlt _ (h.sound.places ▸ List.mem_map_of_mem ht)
    exact ⟨_, .finish hpool htasks hstage (List.getElem?_eq_getElem hn) t⟩
  by_cases hopen : ∃ task ∈ p.tasks, task.isCollected = false
  · obtain ⟨before, task, after, htasks, hopen, hbefore⟩ := exists_first_open hopen
    have ht : task ∈ p.tasks := htasks ▸ List.mem_append_right _ List.mem_cons_self
    cases hstage : task.stage with
    | waiting =>
      refine ⟨_, .start hpool htasks hstage ?_⟩
      unfold Pool.MayStart
      split
      · exact hbefore
      next hmany =>
        -- nobody holds a permit
        have hnone : p.tasks.filter Task.isRunning = [] := by
          refine List.filter_eq_nil_iff.2 fun other ho => ?_
          unfold Task.isRunning
          cases hother : other.stage with
          | running => exact (hrunning ⟨other, ho, hother⟩).elim
          | _ => simp
        rw [hnone, List.length_nil]
        omega
    | running => exact (hrunning ⟨task, ht, hstage⟩).elim
    | ended result => exact ⟨_, .collect hpool htasks hstage⟩
    | collected => simp [Task.isCollected, hstage] at hopen
  · refine ⟨_, .close hpool (fun task ht => ?_) t⟩
    cases hdone : task.isCollected with
    | true => rfl
    | false => exact (hopen ⟨task, ht, hdone⟩).elim

/-- A build that is not over can go on. -/
theorem Inv.exists_step (hplan : plan.Sound g) (h : m.Inv g config plan ends) (t : Traced σ) :
    m.Over ∨ ∃ m', Step g config plan m m' := by
  cases h with
  | idle closed ledgers hidle hall hkeeps hsettles =>
    cases hwaves : m.waves with
    | nil => exact .inl ⟨hwaves, hidle⟩
    | cons wave rest =>
      refine .inr ?_
      by_cases hready : (Context.divide plan m.course.lost wave).1 = []
      · exact ⟨_, .pass hidle hwaves (.inl hready) 0 t⟩
      cases hstopped : m.stopped config with
      | true => exact ⟨_, .pass hidle hwaves (.inr hstopped) 0 t⟩
      | false =>
        exact ⟨_, .dispatch hidle hwaves hready hstopped List.nodup_range List.length_range⟩
  | busy closed ledgers wave skipped ready p hpool hall hsettles hruns =>
    refine .inr (hruns.exists_step hpool (fun n hn => hplan.lt n ?_) t)
    have hwave := hruns.mem_wave n hn
    rw [hall, List.flatten_append, List.flatten_cons]
    exact List.mem_append_right _ (List.mem_append_left _ hwave)

/-! ### What can be told of a build -/

theorem Inv.nodup_started (hplan : plan.Sound g) (h : m.Inv g config plan ends) :
    (started m.moments).Nodup := by
  have hnodup := hplan.layers.nodup_flatten.1
  cases h with
  | idle closed ledgers hidle hall hkeeps hsettles =>
    refine hsettles.started.symm.nodup ?_
    rw [List.append_nil]
    refine (Ledger.runs_sublist _).nodup (hsettles.settled.perm.symm.nodup ?_)
    rw [hall, List.flatten_append] at hnodup
    exact (List.nodup_append.1 hnodup).1
  | busy closed ledgers wave skipped ready p hpool hall hsettles hruns =>
    refine hsettles.started.symm.nodup ?_
    rw [hall, List.flatten_append, List.flatten_cons] at hnodup
    obtain ⟨hclosed, hopen, hdisjoint⟩ := List.nodup_append.1 hnodup
    have hbegun := hruns.begun_sublist
    refine List.nodup_append.2 ⟨?_, hbegun.nodup (hruns.ascending.imp Nat.ne_of_lt), ?_⟩
    · exact (Ledger.runs_sublist _).nodup (hsettles.settled.perm.symm.nodup hclosed)
    · intro a ha b hb
      refine hdisjoint a ?_ b (List.mem_append_left _ (hruns.mem_wave b (hbegun.subset hb)))
      exact hsettles.settled.perm.mem_iff.1 ((Ledger.runs_sublist _).subset ha)

theorem Inv.planned (h : m.Inv g config plan ends) :
    ∀ n ∈ started m.moments, n ∈ plan.waves.flatten := by
  intro n hn
  cases h with
  | idle closed ledgers hidle hall hkeeps hsettles =>
    rw [hsettles.started.mem_iff, List.append_nil] at hn
    rw [hall, List.flatten_append]
    exact List.mem_append_left _
      (hsettles.settled.perm.mem_iff.1 ((Ledger.runs_sublist _).subset hn))
  | busy closed ledgers wave skipped ready p hpool hall hsettles hruns =>
    rw [hsettles.started.mem_iff, List.mem_append] at hn
    rw [hall, List.flatten_append, List.flatten_cons, List.mem_append, List.mem_append]
    rcases hn with hn | hn
    · exact .inl (hsettles.settled.perm.mem_iff.1 ((Ledger.runs_sublist _).subset hn))
    · exact .inr (.inl (hruns.mem_wave n (hruns.begun_sublist.subset hn)))

theorem Inv.orderly (h : m.Inv g config plan ends) : Orderly plan m.moments := by
  cases h with
  | idle _ _ _ _ _ hsettles => exact hsettles.orderly
  | busy _ _ _ _ _ _ _ _ hsettles => exact hsettles.orderly

/-- A build that is over has settled what is due. -/
theorem Inv.settled (h : m.Inv g config plan ends) (hover : m.Over) :
    ∃ ledgers, Settled plan config.failFast [] plan.waves ledgers ∧
      Ledger.EndsAs ledgers.flatten ends ∧ m.course.report = Ledger.report g ledgers.flatten ∧
      (config.parallelism ≤ 1 →
        started m.moments = (Ledger.runs ledgers.flatten).map Prod.fst) := by
  obtain ⟨hwaves, hpool⟩ := hover
  cases h with
  | idle closed ledgers _ hall hkeeps hsettles =>
    rw [hwaves, List.append_nil] at hall
    refine ⟨ledgers, hall ▸ hsettles.settled, hsettles.endsAs, hkeeps.report, fun hone => ?_⟩
    rw [hsettles.inOrder hone, List.append_nil]
  | busy _ _ _ _ _ _ hbusy => rw [hpool] at hbusy; cases hbusy

end Step

end Machine

theorem Orderly.start_before {plan : Plan} {moments : List Moment} (h : Orderly plan moments)
    {n : Nat} {result : Except RunFailure Outputs} (hfinish : .finish n result ∈ moments) :
    ∃ earlier, .start n :: earlier <:+ moments := by
  obtain ⟨later, before, hsplit⟩ := List.append_of_mem hfinish
  have hsuffix : .finish n result :: before <:+ moments := ⟨later, hsplit.symm⟩
  obtain ⟨between, earlier, hbetween⟩ := List.append_of_mem (h.of_suffix hsuffix).1
  refine ⟨earlier, List.IsSuffix.trans ⟨between, hbetween.symm⟩ ?_⟩
  exact (List.suffix_cons _ before).trans hsuffix

/-- Everything that a builder needs, however far off, has finished with outputs before the builder
starts. -/
theorem Orderly.finished_before {β : Type} {g : Graph β} {plan : Plan} (hplan : plan.Sound g)
    {id id' : BuilderId} (hbefore : g.Precedes id id') :
    ∀ {moments : List Moment}, Orderly plan moments →
      ∀ n ∈ plan.waves.flatten, g.idAt n = id' → ∀ earlier, .start n :: earlier <:+ moments →
        ∃ m < g.size, g.idAt m = id ∧ ∃ outputs, .finish m (.ok outputs) ∈ earlier := by
  induction hbefore with
  | single hedge =>
    rintro moments horderly n hn rfl earlier hsuffix
    obtain ⟨k, hk, rfl⟩ := (g.contains_iff _).1 (hplan.ends _ hedge).1
    obtain ⟨outputs, hfinish⟩ := (horderly.of_suffix hsuffix).1 k
      ((hplan.mem_prerequisitesOf n hn k).2 ⟨hk, hedge⟩)
    exact ⟨k, hk, rfl, outputs, hfinish⟩
  | tail _ hedge ih =>
    rintro moments horderly n hn rfl earlier hsuffix
    obtain ⟨k, hk, rfl⟩ := (g.contains_iff _).1 (hplan.ends _ hedge).1
    have hkn := (hplan.mem_prerequisitesOf n hn k).2 ⟨hk, hedge⟩
    have hplanned : k ∈ plan.waves.flatten :=
      (hplan.layers.mem_of_needs n hn k hkn).resolve_left List.not_mem_nil
    obtain ⟨hfirst, hrest⟩ := horderly.of_suffix hsuffix
    obtain ⟨outputs, hfinish⟩ := hfirst k hkn
    obtain ⟨before, hstart⟩ := hrest.start_before hfinish
    obtain ⟨m, hm, hid, made, hmade⟩ := ih hrest k hplanned rfl before hstart
    exact ⟨m, hm, hid, made, hstart.subset (List.mem_cons_of_mem _ hmade)⟩

/-! ## Builds -/

theorem Runs.endsAs {σ : Type} {g : Graph (Builder σ)} {ends : Nat → Except RunFailure Outputs}
    (hends : ∀ n id b, g.nodes[n]? = some (id, b) → ∀ t : Traced σ, (b.run t).1 = ends n)
    {t t' : Traced σ} {runs : List (Nat × Except RunFailure Outputs)} (h : Runs g t runs t') :
    ∀ e ∈ runs, e.2 = ends e.1 := by
  induction h with
  | done => exact fun _ he => (List.not_mem_nil he).elim
  | run _ node run _ ih =>
    refine List.forall_mem_cons.2 ⟨?_, ih⟩
    rw [← hends _ _ _ node, run]

/-- By the report, a builder was run. -/
def Report.ran (r : Report) (id : BuilderId) : Bool :=
  r.executed.contains id || (r.failed.map BuildError.builder?).contains (some id)

namespace Context

variable {σ : Type}

/-- A context in which so many builders may run at the same time. -/
def limited (c : Context σ) (parallelism : Nat) : Context σ :=
  { c with config := { c.config with parallelism } }

/-- What runs of a plan report, if it is settled how builders end. -/
theorem runPlan_ends {g : Graph (Builder σ)} {plan : Plan} {ends : Nat → Except RunFailure Outputs}
    (hplan : plan.Sound g)
    (hends : ∀ n id b, g.nodes[n]? = some (id, b) → ∀ t : Traced σ, (b.run t).1 = ends n)
    (config : Config) {schedule : Schedule} (hschedule : ∀ wave, (schedule wave).Perm wave)
    (t : Traced σ) : ∃ ledgers t',
      runPlan g config schedule plan t = (Ledger.report g (List.flatten ledgers), t') ∧
      Settled plan config.failFast [] plan.waves ledgers ∧
      Ledger.EndsAs ledgers.flatten ends := by
  obtain ⟨ledgers, runs, t', hrun, hsettled, hruns, hperm⟩ :=
    runPlan_settled config hschedule hplan t
  refine ⟨ledgers, t', hrun, hsettled, fun n result he => ?_⟩
  exact hruns.endsAs hends (n, result) (hperm.mem_iff.1 (Ledger.mem_runs.2 he))

theorem runs_eq_filter_report {β : Type} {g : Graph β} {plan : Plan} {failFast : Bool}
    {ledgers : List Ledger} (hplan : plan.Sound g)
    (h : Settled plan failFast [] plan.waves ledgers) :
    (Ledger.runs ledgers.flatten).map Prod.fst =
      (plan.waves.map fun wave => wave.filter fun n =>
        (Ledger.report g ledgers.flatten).ran (g.idAt n)).flatten := by
  rw [← List.filter_flatten]
  refine h.runs_eq_filter fun n fate he => ?_
  have hn := h.planned he
  unfold Report.ran
  rw [Bool.or_eq_true, List.contains_iff_mem, List.contains_iff_mem, List.mem_map, mem_executed]
  simp only [mem_failed]
  constructor
  · rintro (⟨m, outputs, hm, heq⟩ | ⟨e, ⟨m, failure, hm, rfl⟩, heq⟩)
    · cases Settled.eq_of_idAt hplan (h.planned hm) hn heq
      exact ⟨_, h.fate_unique hplan he hm⟩
    · rw [builder?_error] at heq
      cases Settled.eq_of_idAt hplan (h.planned hm) hn (Option.some.inj heq)
      exact ⟨_, h.fate_unique hplan he hm⟩
  · rintro ⟨failure | outputs, rfl⟩
    · exact .inr ⟨_, ⟨n, failure, he, rfl⟩, builder?_error _ _⟩
    · exact .inl ⟨n, outputs, he, rfl⟩

/-- Builds whose builders may overlap, if it is settled how every builder ends. Either the build
fails, however many builders may run at the same time, and nobody is run. Or there is one report:
however many builders may run at the same time, and in whatever order they finish, nobody starts
twice, or before all that it needs has finished with outputs; a build goes on until it is over,
which it is after finitely many moves; and then it has given that report. If builders run one at a
time, those of each wave that are run start in order of mention. -/
theorem execute_overlapped [Inhabited σ] {c : Context σ} {edits : List EdgeEdit}
    (hfresh : c.hasRun = false) (hedits : c.transformations = edits.map EdgeEdit.transformation)
    {ends : BuilderId → Except RunFailure Outputs}
    (hends : ∀ id b, (id, b) ∈ c.graph.nodes → ∀ t : Traced σ, (b.run t).1 = ends id)
    (root : Option BuilderId) :
    (∃ e, ∀ parallelism schedule t, ∃ d u,
      (c.limited parallelism).execute schedule root t = ((.error e, d), u) ∧ Told t u) ∨
    ∃ edges plan report, (c.edited edges).plan root = .ok plan ∧
      (∀ parallelism schedule t, (∀ wave, (schedule wave).Perm wave) →
        ((c.limited parallelism).execute schedule root t).1.1 = .ok report) ∧
      ∀ parallelism m, Machine.Steps (c.edited edges) { c.config with parallelism } plan
          { waves := plan.waves } m →
        (started m.moments).Nodup ∧
        (∀ n earlier, .start n :: earlier <:+ m.moments → ∀ k < c.graph.size,
          (c.edited edges).Precedes (c.graph.idAt k) (c.graph.idAt n) →
          ∃ outputs, .finish k (.ok outputs) ∈ earlier) ∧
        (m.Over ∨ ∃ m', Machine.Step (c.edited edges) { c.config with parallelism } plan m m') ∧
        (∀ m', Machine.Step (c.edited edges) { c.config with parallelism } plan m m' →
          m'.left < m.left) ∧
        (m.Over → m.course.report = report ∧ (parallelism ≤ 1 →
          started m.moments = (plan.waves.map fun wave => wave.filter fun n =>
            report.ran (c.graph.idAt n)).flatten)) := by
  have hexecute (parallelism : Nat) (schedule : Schedule) (t : Traced σ) :=
    execute_fresh (c := c.limited parallelism) hfresh hedits schedule root t
  have hedges : ∀ parallelism, (c.limited parallelism).graph.edges = c.graph.edges := fun _ => rfl
  have hedited : ∀ parallelism, (c.limited parallelism).edited = c.edited := fun _ => rfl
  simp only [hedges, hedited] at hexecute
  generalize EdgeEdit.applyAll 0 edits c.graph.edges = answer at hexecute
  obtain ⟨go, edges⟩ := answer
  cases go with
  | error n =>
    refine .inl ⟨.cancelled, fun parallelism schedule t => ?_⟩
    obtain ⟨t₁, htold, hrun⟩ := hexecute parallelism schedule t
    exact ⟨_, _, hrun, htold.trans (.tell _)⟩
  | ok =>
    cases hplan : (c.edited edges).plan root with
    | error e =>
      refine .inl ⟨.graph e, fun parallelism schedule t => ?_⟩
      obtain ⟨t₁, htold, hrun⟩ := hexecute parallelism schedule t
      simp only [hplan] at hrun
      exact ⟨_, _, hrun, htold⟩
    | ok plan =>
      have hsound := sound_of_plan hplan
      have hplaces : ∀ n id b, (c.edited edges).nodes[n]? = some (id, b) →
          ∀ t : Traced σ, (b.run t).1 = ends ((c.edited edges).idAt n) := by
        intro n id b hnode t
        have hid : (c.edited edges).idAt n = id := by
          unfold Graph.idAt Graph.ids
          rw [List.getD_eq_getElem?_getD, List.getElem?_map, hnode]
          rfl
        rw [hid]
        exact hends id b (List.mem_of_getElem? hnode) t
      have hid : ∀ wave : List Nat, (id wave).Perm wave := fun _ => .rfl
      obtain ⟨ledgers, -, -, hsettled, hledgers⟩ :=
        runPlan_ends hsound hplaces c.config hid ⟨default, []⟩
      refine .inr ⟨edges, plan, Ledger.report (c.edited edges) ledgers.flatten, hplan, ?_, ?_⟩
      · intro parallelism schedule t hschedule
        obtain ⟨t₁, -, hrun⟩ := hexecute parallelism schedule t
        obtain ⟨ledgers', t₂, hrunPlan, hsettled', hledgers'⟩ :=
          runPlan_ends hsound hplaces (c.limited parallelism).config hschedule t₁
        simp only [hplan, hrunPlan] at hrun
        rw [hrun, hsettled.eq_of_endsAs hsettled' hledgers hledgers']
      · intro parallelism m hsteps
        have hinv := Machine.Steps.inv hsound hplaces hsteps
        refine ⟨hinv.nodup_started hsound, ?_, hinv.exists_step hsound ⟨default, []⟩,
          fun _ hstep => hstep.left_lt, ?_⟩
        · intro n earlier hstart k hk hprecedes
          have hn := hinv.planned n (mem_started.2 (hstart.subset List.mem_cons_self))
          obtain ⟨m, hm, hid, hfinish⟩ :=
            hinv.orderly.finished_before hsound hprecedes n hn rfl earlier hstart
          rwa [(c.edited edges).idAt_injective hm hk hid] at hfinish
        · intro hover
          obtain ⟨ledgers', hsettled', hledgers', hreport, hstarted⟩ := hinv.settled hover
          rw [hsettled.eq_of_endsAs hsettled' hledgers hledgers']
          refine ⟨hreport, fun hone => ?_⟩
          rw [hstarted hone]
          exact runs_eq_filter_report hsound hsettled'

theorem execute_overlapped_broken : ∃ report, report.executed = [⟨"b", "third"⟩] ∧
    report.failed = [.panicked ⟨"b", "first"⟩] ∧
    ∀ parallelism schedule t, (∀ wave, (schedule wave).Perm wave) →
      ((broken.limited parallelism).execute schedule none t).1.1 = .ok report := by
  have hends : ∀ id b, (id, b) ∈ broken.graph.nodes → ∀ t : Traced Unit, (b.run t).1 =
      if id = ⟨"b", "first"⟩ then .error .panicked else .ok ∅ := by
    intro id b hb t
    simp only [broken, List.mem_cons, Prod.mk.injEq, List.not_mem_nil, or_false] at hb
    rcases hb with ⟨rfl, rfl⟩ | ⟨rfl, rfl⟩ | ⟨rfl, rfl⟩ <;> rfl
  have hedits : broken.transformations = ([] : List EdgeEdit).map EdgeEdit.transformation := rfl
  have hid : ∀ wave : List Nat, (id wave).Perm wave := fun _ => .rfl
  rcases execute_overlapped rfl hedits hends none with ⟨e, herror⟩ | ⟨_, _, report, -, hall, -⟩
  · obtain ⟨d, u, h, -⟩ := herror 1 id ⟨(), []⟩
    cases h
  · have hreport := hall 1 id ⟨(), []⟩ hid
    cases hreport
    exact ⟨_, rfl, rfl, hall⟩

end Context

end Rebuild
