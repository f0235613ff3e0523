import Rebuild.Build.Config
import Rebuild.Builder.Basic
import Rebuild.Graph.Dot
import Rebuild.Graph.Plan

/-!
# Build contexts

The builders of one build, the edges between them, transformations of the edges, and the results. A
context is set up, runs once, and can only be asked from then on.

* `Context.add`, `Context.transform`: setting up.
* `Context.resultsOf`, `Context.dependentsOf`, `Context.dump`: asking.
-/
namespace Rebuild

/-- Edits the edges of a build before it runs, and says whether it may run. -/
abbrev Transformation (σ : Type) := EdgeSet → Action σ (Bool × EdgeSet)

/-- The builders and results of one build. -/
structure Context (σ : Type) where
  config : Config
  graph : Graph (Builder σ) := {}
  transformations : List (Transformation σ) := []
  results : SortedMap BuilderId Outputs := ∅
  /-- The context has run, or has tried to. -/
  hasRun : Bool := false

namespace Context

variable {σ : Type}

/-- Adds a builder to a graph; the first builder of an identity stays. -/
def insert (g : Graph (Builder σ)) (b : Builder σ) : Action σ (Graph (Builder σ)) := do
  if let some first := g.get? b.id then
    if first.serial ≠ b.serial then Action.tell (.builderKept b.id)
  return (g.addNode b.id b).2

/-- Adds the prerequisites of a builder. -/
def insertPrerequisites (dependent : BuilderId) :
    Graph (Builder σ) → List (Builder σ) → Action σ (Graph (Builder σ))
  | g, [] => return g
  | g, b :: rest => do
    unless g.contains b.id do Action.tell (.prerequisiteRegistered b.id dependent)
    let g ← insert g b
    insertPrerequisites dependent (g.addEdge b.id dependent) rest

/-- Adds a builder with its prerequisites, which become part of the build as well. -/
def add (c : Context σ) (b : Builder σ) (prerequisites : List (Builder σ)) :
    Action σ (Except BuildError Unit × Context σ) := do
  if c.hasRun then return (.error .alreadyRun, c)
  let graph ← insertPrerequisites b.id (← insert c.graph b) prerequisites
  return (.ok (), { c with graph })

/-- Adds a transformation, to be applied last. -/
def transform (c : Context σ) (t : Transformation σ) : Except BuildError Unit × Context σ :=
  if c.hasRun then (.error .alreadyRun, c)
  else (.ok (), { c with transformations := c.transformations ++ [t] })

/-- Whether a builder is part of the build. -/
def contains (c : Context σ) (id : BuilderId) : Bool := c.graph.contains id

/-- The builders that need a builder to be run first. -/
def dependentsOf (c : Context σ) (id : BuilderId) : List BuilderId :=
  (c.graph.dependents id).map Prod.fst

/-- The results of a builder that ran. -/
def resultsOf (c : Context σ) (id : BuilderId) : Except BuildError Outputs :=
  if c.graph.contains id then
    match c.results.get? id with
    | some outputs => .ok outputs
    | none => .error (.notRun id)
  else .error (.graph (.unknown id))

/-- The DOT text of the build, or of the part that a root needs. -/
def dump (c : Context σ) (root : Option BuilderId) : Except BuildError String :=
  (c.graph.dot root).mapError .graph

/-- Writes the DOT text to where there is room for so many bytes. -/
def dumpWithin (c : Context σ) (root : Option BuilderId) (room : Nat) : Except BuildError Unit := do
  let text ← c.dump root
  if room < text.utf8ByteSize then throw (.dump "sink full")

end Context

end Rebuild
