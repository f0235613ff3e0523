import Rebuild.Graph.Basic

/-!
# Selecting a part of the graph

A run concerns all builders, or a root and everything it needs. Edges are taken as pairs of places;
an edge to an identity without a builder is refused, wherever it lies.

* `Graph.indexEdges`: the edges as pairs of places, in the order of the edge set.
* `Graph.select`: the selected places, ascending, with the edges between them.
-/
namespace Rebuild

/-- Why a graph cannot be planned. -/
inductive GraphError where
  | unknown (id : BuilderId)
  /-- The builder lies on a cycle. -/
  | cycle (id : BuilderId)
  deriving DecidableEq, Repr

def GraphError.message : GraphError → String
  | .unknown id => s!"builder {id.text} is not part of this build context"
  | .cycle id => s!"dependency cycle detected involving {id.text}"

/-- The places that a run concerns, ascending, and the edges between them. -/
structure Selection where
  places : List Nat
  edges : List (Nat × Nat)
  deriving DecidableEq, Repr

namespace Selection

/-- The direct prerequisites of a place, in the order of the edges. -/
def sources (edges : List (Nat × Nat)) (n : Nat) : List Nat :=
  edges.filterMap fun (a, b) => if b = n then some a else none

/-- The direct dependents of a place, in the order of the edges. -/
def targets (edges : List (Nat × Nat)) (n : Nat) : List Nat :=
  edges.filterMap fun (a, b) => if a = n then some b else none

/-- Everything that places reach against the edges. `pending` are places whose prerequisites are
still to be looked at; each place is pending once, so their number is fuel enough. -/
def reach (edges : List (Nat × Nat)) : (fuel : Nat) → (pending reached : List Nat) → List Nat
  | 0, _, reached => reached
  | _, [], reached => reached
  | fuel + 1, n :: pending, reached =>
    let new := ((sources edges n).filter fun m => !reached.contains m).eraseDups
    reach edges fuel (new ++ pending) (new ++ reached)

end Selection

namespace Graph

variable {β : Type}

/-- The place of an identity that must have one. -/
def lookup (g : Graph β) (id : BuilderId) : Except GraphError Nat :=
  match g.index? id with
  | some n => .ok n
  | none => .error (.unknown id)

/-- The edges as pairs of places. -/
def indexEdges (g : Graph β) : Except GraphError (List (Nat × Nat)) :=
  g.edges.toList.mapM fun e => do return (← g.lookup e.prerequisite, ← g.lookup e.dependent)

/-- All places, or a root and everything it needs. -/
def select (g : Graph β) (root : Option BuilderId) : Except GraphError Selection := do
  let edges ← g.indexEdges
  match root with
  | none => return ⟨List.range g.size, edges⟩
  | some root =>
    let root ← g.lookup root
    let reached := Selection.reach edges (g.size + 1) [root] [root]
    return ⟨(List.range g.size).filter reached.contains,
      edges.filter fun (a, b) => reached.contains a && reached.contains b⟩

/-- The identity at a place. -/
def idAt (g : Graph β) (n : Nat) : BuilderId := g.ids.getD n ⟨"", ""⟩

end Graph

end Rebuild
