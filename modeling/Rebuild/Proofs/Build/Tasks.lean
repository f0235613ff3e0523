import Mathlib.Algebra.GroupWithZero.Nat
import Mathlib.Logic.Relation
import Rebuild.Proofs.Build.Course

/-!
# Waves as tasks

Several builders of a wave may run at the same time. Each is run by a task of its
own, which waits for a permit, runs its builder and gives the permit back; some
time later its result is collected, and filed under the place that was noted for
the number of the task. A wave is over when everything is collected, and its
outcomes are then put in order of mention. What the world is like when a builder
runs, and what those that run beside it do to it, is left open.

* `Moment`, `Orderly`: what happens to builders, and when it may happen.
* `Pool`: the tasks of a wave.
* `Machine`, `Machine.Step`: a build in the course, one move at a time.
* `Machine.Step.left_lt`: no build goes on for ever.
-/
namespace Rebuild

/-! ## Moments -/

/-- Something that happens to the builder at a place. -/
inductive Moment where
  | start (place : Nat)
  | finish (place : Nat) (result : Except RunFailure Outputs)

/-- The places of the builders that were started, the earliest first, given what happened, the
latest first. -/
def started : List Moment → List Nat
  | [] => []
  | .start n :: earlier => started earlier ++ [n]
  | .finish _ _ :: earlier => started earlier

/-- Builders finish after they have started, and start after all that they need directly has
finished with outputs. The latest moment is the first of the list. -/
def Orderly (plan : Plan) : List Moment → Prop
  | [] => True
  | .start n :: earlier =>
    (∀ m ∈ plan.prerequisitesOf n, ∃ outputs, .finish m (.ok outputs) ∈ earlier) ∧
      Orderly plan earlier
  | .finish n _ :: earlier => .start n ∈ earlier ∧ Orderly plan earlier

theorem mem_started {n : Nat} : ∀ {moments : List Moment},
    n ∈ started moments ↔ .start n ∈ moments
  | [] => by simp [started]
  | .start m :: earlier => by simp [started, @mem_started n earlier, or_comm]
  | .finish m result :: earlier => by simp [started, @mem_started n earlier]

theorem Orderly.of_suffix {plan : Plan} : ∀ {moments earlier : List Moment},
    Orderly plan moments → earlier <:+ moments → Orderly plan earlier
  | [], earlier, _, hsuffix => by
    cases List.suffix_nil.1 hsuffix
    trivial
  | moment :: rest, earlier, h, hsuffix => by
    rcases List.suffix_cons_iff.1 hsuffix with rfl | hrest
    · exact h
    · cases moment with
      | start n => exact h.2.of_suffix hrest
      | finish n result => exact h.2.of_suffix hrest

/-! ## Tasks -/

/-- How far a task is. -/
inductive Stage where
  | waiting
  | running
  | ended (result : Except RunFailure Outputs)
  | collected

/-- A task that runs the builder at a place. -/
structure Task where
  number : Nat
  place : Nat
  stage : Stage := .waiting

namespace Task

def isWaiting (task : Task) : Bool :=
  match task.stage with
  | .waiting => true
  | _ => false

def isRunning (task : Task) : Bool :=
  match task.stage with
  | .running => true
  | _ => false

def isCollected (task : Task) : Bool :=
  match task.stage with
  | .collected => true
  | _ => false

/-- How many moves a task has before it. -/
def left (task : Task) : Nat :=
  match task.stage with
  | .waiting => 3
  | .running => 2
  | .ended _ => 1
  | .collected => 0

end Task

/-- The tasks of a wave in order of mention, the places noted for their numbers, and what has been
collected, in the order in which it was. -/
structure Pool where
  tasks : List Task
  noted : List (Nat × Nat)
  outcomes : List (Nat × Outcome) := []

namespace Pool

variable {β : Type}

/-- Tasks with the given numbers for the builders at some places. -/
def spawn (numbers places : List Nat) : Pool where
  tasks := (numbers.zip places).map fun (number, place) => { number, place }
  noted := numbers.zip places

/-- The places of the builders that were started. -/
def begun (p : Pool) : List Nat := (p.tasks.filter fun task => !task.isWaiting).map Task.place

/-- A task that comes behind others may be started: all of these are done with if builders run one
at a time; otherwise a permit is left. -/
def MayStart (p : Pool) (parallelism : Nat) (before : List Task) : Prop :=
  if parallelism ≤ 1 then ∀ task ∈ before, task.isCollected = true
  else (p.tasks.filter Task.isRunning).length < parallelism

/-- A task between others reaches a stage. -/
def advance (p : Pool) (before : List Task) (task : Task) (after : List Task) (stage : Stage) :
    Pool :=
  { p with tasks := before ++ { task with stage } :: after }

/-- Files the result of a task under the place that was noted for its number. A task whose number is
unknown is passed over. -/
def collect (p : Pool) (g : Graph β) (number : Nat) (result : Except RunFailure Outputs) : Pool :=
  match p.noted.lookup number with
  | some n =>
    { p with outcomes := p.outcomes ++ [(n, result.mapError (RunFailure.error (g.idAt n)))] }
  | none => p

/-- The outcomes in order of mention. -/
def sorted (p : Pool) : List (Nat × Outcome) := p.outcomes.mergeSort fun a b => a.1 ≤ b.1

end Pool

/-! ## Builds -/

/-- A build in the course: the waves still to come, what is known, the tasks of the wave that is
being run, and what has happened to builders, the latest first. -/
structure Machine where
  waves : List (List Nat)
  course : Course := {}
  pool : Option Pool := none
  moments : List Moment := []

namespace Machine

variable {σ : Type}

/-- The build is over. -/
def Over (m : Machine) : Prop := m.waves = [] ∧ m.pool = none

/-- The build has been stopped by a failure. -/
def stopped (m : Machine) (config : Config) : Bool :=
  config.failFast && !m.course.report.failed.isEmpty

/-- A move of a build, in whatever world it is made. -/
inductive Step (g : Graph (Builder σ)) (config : Config) (plan : Plan) : Machine → Machine → Prop
  /-- Of the next wave nobody is run. -/
  | pass {m : Machine} {wave : List Nat} {rest : List (List Nat)} (idle : m.pool = none)
      (waves : m.waves = wave :: rest)
      (nobody : (Context.divide plan m.course.lost wave).1 = [] ∨ m.stopped config = true)
      (number : Nat) (t : Traced σ) :
      Step g config plan m { m with
        waves := rest
        course := (Context.step g config id plan number wave m.course t).1 }
  /-- The builders of the next wave that can run are given tasks. -/
  | dispatch {m : Machine} {wave : List Nat} {rest : List (List Nat)} (idle : m.pool = none)
      (waves : m.waves = wave :: rest)
      (somebody : (Context.divide plan m.course.lost wave).1 ≠ [])
      (going : m.stopped config = false) {numbers : List Nat} (distinct : numbers.Nodup)
      (length : numbers.length = (Context.divide plan m.course.lost wave).1.length) :
      Step g config plan m { m with
        waves := rest
        course := Context.Course.skip g m.course (Context.divide plan m.course.lost wave).2
        pool := some (.spawn numbers (Context.divide plan m.course.lost wave).1) }
  | start {m : Machine} {p : Pool} {before after : List Task} {task : Task}
      (pool : m.pool = some p) (tasks : p.tasks = before ++ task :: after)
      (stage : task.stage = .waiting) (permit : p.MayStart config.parallelism before) :
      Step g config plan m { m with
        pool := some (p.advance before task after .running)
        moments := .start task.place :: m.moments }
  | finish {m : Machine} {p : Pool} {before after : List Task} {task : Task} {id : BuilderId}
      {b : Builder σ} (pool : m.pool = some p) (tasks : p.tasks = before ++ task :: after)
      (stage : task.stage = .running) (node : g.nodes[task.place]? = some (id, b))
      (t : Traced σ) :
      Step g config plan m { m with
        pool := some (p.advance before task after (.ended (b.run t).1))
        moments := .finish task.place (b.run t).1 :: m.moments }
  | collect {m : Machine} {p : Pool} {before after : List Task} {task : Task}
      {result : Except RunFailure Outputs} (pool : m.pool = some p)
      (tasks : p.tasks = before ++ task :: after) (stage : task.stage = .ended result) :
      Step g config plan m { m with
        pool := some ((p.advance before task after .collected).collect g task.number result) }
  /-- Everything is collected, and noted in order of mention. -/
  | close {m : Machine} {p : Pool} (pool : m.pool = some p)
      (done : ∀ task ∈ p.tasks, task.isCollected = true) (t : Traced σ) :
      Step g config plan m { m with
        course := (p.sorted.foldlM (Context.note g) m.course t).1
        pool := none }

/-- Moves of a build, one after the other. -/
abbrev Steps (g : Graph (Builder σ)) (config : Config) (plan : Plan) : Machine → Machine → Prop :=
  Relation.ReflTransGen (Step g config plan)

/-- A bound of the number of moves to come. -/
def left (m : Machine) : Nat :=
  (m.waves.map fun wave => 3 * wave.length + 2).sum +
    (m.pool.elim 0 fun p => (p.tasks.map Task.left).sum + 1)

end Machine

section Left

variable {σ : Type} {g : Graph (Builder σ)} {config : Config} {plan : Plan}

theorem Pool.tasks_collect {β : Type} (p : Pool) (g : Graph β) (number : Nat)
    (result : Except RunFailure Outputs) : (p.collect g number result).tasks = p.tasks := by
  unfold collect
  split <;> rfl

theorem Pool.left_advance {before after : List Task} {task : Task} (p : Pool) (stage : Stage)
    (htasks : p.tasks = before ++ task :: after)
    (hlt : Task.left { task with stage } < task.left) :
    ((p.advance before task after stage).tasks.map Task.left).sum <
      (p.tasks.map Task.left).sum := by
  unfold advance
  rw [htasks]
  simp only [List.map_append, List.map_cons, List.sum_append, List.sum_cons]
  omega

theorem Pool.left_spawn (numbers places : List Nat) :
    ((spawn numbers places).tasks.map Task.left).sum ≤ 3 * places.length := by
  unfold spawn
  rw [List.map_map]
  induction places generalizing numbers with
  | nil => simp
  | cons place places ih =>
    cases numbers with
    | nil => simp
    | cons number numbers =>
      have := ih numbers
      simp only [List.zip_cons_cons, List.map_cons, List.sum_cons, List.length_cons,
        Function.comp_apply, Task.left] at this ⊢
      omega

/-- Every move brings the end nearer. -/
theorem Machine.Step.left_lt {m m' : Machine} (h : Step g config plan m m') :
    m'.left < m.left := by
  cases h with
  | pass idle waves =>
    unfold left
    simp only [waves, List.map_cons, List.sum_cons]
    omega
  | @dispatch wave rest idle waves somebody going numbers =>
    have hspawn := Pool.left_spawn numbers (Context.divide plan m.course.lost wave).1
    have hlength : (Context.divide plan m.course.lost wave).1.length ≤ wave.length := by
      rw [Context.divide_eq]
      exact List.length_filter_le _ _
    unfold left
    simp only [waves, idle, Option.elim, List.map_cons, List.sum_cons]
    omega
  | @start p before after task pool tasks stage =>
    have := p.left_advance .running tasks (by simp [Task.left, stage])
    unfold left
    simp only [pool, Option.elim]
    omega
  | @finish p before after task id b pool tasks stage node t =>
    have := p.left_advance (.ended (b.run t).1) tasks (by simp [Task.left, stage])
    unfold left
    simp only [pool, Option.elim]
    omega
  | @collect p before after task result pool tasks stage =>
    have := p.left_advance .collected tasks (by simp [Task.left, stage])
    unfold left
    simp only [pool, Option.elim, Pool.tasks_collect]
    omega
  | close pool =>
    unfold left
    simp only [pool, Option.elim]
    omega

end Left

end Rebuild
