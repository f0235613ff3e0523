import Rebuild.Build.Context

/-!
# Running a build

The edges are transformed, the builders planned, and the waves of the plan run one after the other.
A builder with a prerequisite that failed or was skipped is skipped. If a build is to stop at a
failure, the waves after it are held back. The outcomes of a wave are reported in order of mention,
whatever order the builders finished in.

* `Context.execute`: runs a build and reports what became of every builder.
* `Context.run`: runs a build for its outputs.
-/
namespace Rebuild

/-- How the run of a builder ends. -/
abbrev Outcome := Except BuildError Outputs

/-- The order in which the builders of a wave run, if several may run at the same time. -/
abbrev Schedule := List Nat → List Nat

/-- What is known in the course of a run. -/
structure Course where
  report : Report := {}
  /-- The places of the builders that failed or were skipped. -/
  lost : List Nat := []

namespace Context

variable {σ : Type}

/-- Applies transformations in order, until one vetoes the run. Also how many were applied and the
edges they left. -/
def applyTransformations : Nat → List (Transformation σ) → EdgeSet →
    Action σ (Except Nat Unit × EdgeSet)
  | _, [], edges => return (.ok (), edges)
  | n, t :: rest, edges => do
    let (go, edges) ← t edges
    if go then applyTransformations (n + 1) rest edges else return (.error n, edges)

/-- Runs the builder at a place. -/
def runAt (g : Graph (Builder σ)) (n : Nat) : Action σ (Nat × Outcome) := do
  match g.nodes[n]? with
  | none => return (n, .error (.graph (.unknown (g.idAt n))))
  | some (id, b) =>
    match ← b.run with
    | .ok outputs => return (n, .ok outputs)
    | .error (.failed cause) => return (n, .error (.failed id cause))
    | .error .panicked => return (n, .error (.panicked id))

/-- Runs the builders of a wave. The outcomes are in order of mention. -/
def runWave (g : Graph (Builder σ)) (parallelism : Nat) (schedule : Schedule) (wave : List Nat) :
    Action σ (List (Nat × Outcome)) := do
  if parallelism ≤ 1 then wave.mapM (runAt g)
  else return (← (schedule wave).mapM (runAt g)).mergeSort fun a b => a.1 ≤ b.1

/-- Divides the builders of a wave into those that can run and those to be skipped, each with its
first lost prerequisite. The builders of a wave do not need each other. -/
def divide (plan : Plan) (lost : List Nat) : List Nat → List Nat × List (Nat × Nat)
  | [] => ([], [])
  | n :: rest =>
    let (ready, skipped) := divide plan lost rest
    match (plan.prerequisitesOf n).find? lost.contains with
    | none => (n :: ready, skipped)
    | some p => (ready, (n, p) :: skipped)

/-- Notes the outcome of a builder. -/
def note (g : Graph (Builder σ)) (c : Course) : Nat × Outcome → Action σ Course
  | (n, .ok outputs) => do
    let id := g.idAt n
    Action.tell (.builderSucceeded id outputs.size)
    return { c with report := { c.report with
      results := c.report.results.insert id outputs
      executed := c.report.executed ++ [id] } }
  | (n, .error e) => do
    Action.tell (.builderFailed (g.idAt n) e)
    return ⟨{ c.report with failed := c.report.failed ++ [e] }, n :: c.lost⟩

/-- Runs a wave, given its number. -/
def step (g : Graph (Builder σ)) (config : Config) (schedule : Schedule) (plan : Plan)
    (number : Nat) (wave : List Nat) (c : Course) : Action σ Course := do
  let (ready, skipped) := divide plan c.lost wave
  let skips := skipped.map fun (n, p) => (⟨g.idAt n, g.idAt p⟩ : Skipped)
  Action.tellAll (skips.map .builderSkipped)
  let c : Course := ⟨{ c.report with skipped := c.report.skipped ++ skips },
    skipped.map Prod.fst ++ c.lost⟩
  if ready.isEmpty then return c
  if config.failFast && !c.report.failed.isEmpty then
    Action.tell (.waveHeldBack number ready.length)
    return { c with report := { c.report with
      notStarted := c.report.notStarted ++ ready.map g.idAt } }
  Action.tell (.waveDispatched number ready.length)
  (← runWave g config.parallelism schedule ready).foldlM (note g) c

/-- Runs the waves of a plan, the first having the given number. -/
def runWaves (g : Graph (Builder σ)) (config : Config) (schedule : Schedule) (plan : Plan) :
    Nat → List (List Nat) → Course → Action σ Course
  | _, [], c => return c
  | number, wave :: rest, c => do
    runWaves g config schedule plan (number + 1) rest (← step g config schedule plan number wave c)

/-- Runs a plan. -/
def runPlan (g : Graph (Builder σ)) (config : Config) (schedule : Schedule) (plan : Plan) :
    Action σ Report := do
  if plan.size < g.size then Action.tell (.graphPruned plan.size (g.size - plan.size))
  Action.tell (.planned plan.waves.length plan.size)
  let { report, .. } ← runWaves g config schedule plan 0 plan.waves {}
  Action.tell (.buildFinished report.executed.length report.failed.length report.skipped.length
    report.notStarted.length)
  return report

/-- Runs the build, or the part that a root needs, and reports what became of every builder. A
context runs once, even if the run ends before any builder is run. -/
def execute (c : Context σ) (schedule : Schedule) (root : Option BuilderId) :
    Action σ (Except BuildError Report × Context σ) := do
  if c.hasRun then return (.error .alreadyRun, c)
  Action.tell (.buildStarted c.graph.size c.graph.edges.size root)
  let (go, edges) ← applyTransformations 0 c.transformations c.graph.edges
  let c := { c with hasRun := true, graph := { c.graph with edges } }
  match go with
  | .error n =>
    Action.tell (.buildCancelled n)
    return (.error .cancelled, c)
  | .ok () =>
    match c.graph.plan root with
    | .error e => return (.error (.graph e), c)
    | .ok plan =>
      let report ← runPlan c.graph c.config schedule plan
      return (.ok report, { c with results := report.results })

/-- Runs the build, or the part that a root needs, for its outputs. -/
def run (c : Context σ) (schedule : Schedule) (root : Option BuilderId) :
    Action σ (Except BuildError Outputs × Context σ) := do
  let (report, c) ← c.execute schedule root
  return (report.bind Report.result, c)

end Context

end Rebuild
