import Rebuild.Graph.Cycle

/-!
# Plans

A plan groups the selected builders into waves: each wave holds the builders whose prerequisites all
lie in earlier waves, in order of mention. Waves are peeled off with a counter for each builder of
the prerequisites it still waits for.

* `Graph.plan`: the plan of the graph or of the part that a root needs.
-/
namespace Rebuild

/-- The waves, and the direct prerequisites of every planned builder, by place. -/
structure Plan where
  waves : List (List Nat) := []
  prerequisites : List (Nat × List Nat) := []
  deriving DecidableEq, Repr

namespace Plan

/-- The number of planned builders. -/
def size (p : Plan) : Nat := p.waves.flatten.length

def isEmpty (p : Plan) : Bool := p.waves.isEmpty

/-- The direct prerequisites of a planned builder, ascending. -/
def prerequisitesOf (p : Plan) (n : Nat) : List Nat := (p.prerequisites.lookup n).getD []

end Plan

namespace Selection

/-- Peels off the places that wait for nothing, and lowers the counters of their dependents. Fails
at the first place if all wait. -/
def peel (edges : List (Nat × Nat)) : (fuel : Nat) → (waiting : List (Nat × Nat)) →
    Except Nat (List (List Nat))
  | _, [] => .ok []
  | 0, (n, _) :: _ => .error n
  | fuel + 1, (n, k) :: rest =>
    let waiting := (n, k) :: rest
    let ready := (waiting.filter fun w => w.2 == 0).map Prod.fst
    if ready.isEmpty then .error n
    else do
      let left := (waiting.filter fun w => w.2 != 0).map fun (m, k) =>
        (m, k - ((sources edges m).filter ready.contains).length)
      return ready :: (← peel edges fuel left)

/-- Every place with the number of its prerequisites. -/
def counters (s : Selection) : List (Nat × Nat) :=
  s.places.map fun n => (n, (sources s.edges n).length)

end Selection

/-- The plan for all builders, or for a root and everything it needs. -/
def Graph.plan {β : Type} (g : Graph β) (root : Option BuilderId) : Except GraphError Plan := do
  let s ← g.select root
  if let some n := s.cycle? then throw (.cycle (g.idAt n))
  match Selection.peel s.edges s.places.length s.counters with
  | .error n => throw (.cycle (g.idAt n))
  | .ok waves =>
    return ⟨waves, s.places.map fun n =>
      (n, s.places.filter (Selection.sources s.edges n).contains)⟩

end Rebuild
