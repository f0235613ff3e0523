import Rebuild.Graph.Selection

/-!
# Finding a cycle

Two passes of depth-first search. The first follows the edges, newest first, and notes the places in
the order in which they are finished; a place with an edge to itself ends it. The second goes
through the finished places from the last to the first, against the edges: a place from which a
further unseen place is reached there lies in a component with it, so that one is on a cycle.

* `Selection.cycle?`: a place on a cycle, if there is one.
-/
namespace Rebuild.Selection

/-- The places found so far, and those finished, the latest first. -/
structure Progress where
  discovered : List Nat := []
  finished : List Nat := []

/-- Searches from the places on a stack. Every step finds a place or takes one off the stack, and a
place is put on it at most once for each edge to it. -/
def explore (edges : List (Nat × Nat)) : (fuel : Nat) → (stack : List Nat) → Progress →
    Except Nat Progress
  | 0, _, p => .ok p
  | _, [], p => .ok p
  | fuel + 1, n :: stack, p =>
    if p.discovered.contains n then
      explore edges fuel stack
        (if p.finished.contains n then p else { p with finished := n :: p.finished })
    else if (targets edges n).contains n then .error n
    else
      let discovered := n :: p.discovered
      -- the oldest edge comes to lie on top
      let unseen := (targets edges n).filter fun m => !discovered.contains m
      explore edges fuel (unseen ++ n :: stack) { p with discovered }

/-- Searches from every place that is not found yet. -/
def exploreAll (edges : List (Nat × Nat)) (fuel : Nat) : List Nat → Progress → Except Nat Progress
  | [], p => .ok p
  | n :: places, p =>
    if p.discovered.contains n then exploreAll edges fuel places p
    else do exploreAll edges fuel places (← explore edges fuel [n] p)

/-- The first place that is reached against the edges from a place finished later. -/
def backtrack? (edges : List (Nat × Nat)) : (finished seen : List Nat) → Option Nat
  | [], _ => none
  | n :: finished, seen =>
    if seen.contains n then backtrack? edges finished seen
    else
      let seen := n :: seen
      match (sources edges n).filter fun m => !seen.contains m with
      | m :: _ => some m
      | [] => backtrack? edges finished seen

/-- A place on a cycle. -/
def cycle? (s : Selection) : Option Nat :=
  match exploreAll s.edges (2 * (s.places.length + s.edges.length) + 1) s.places {} with
  | .error n => some n
  | .ok p => backtrack? s.edges p.finished []

end Rebuild.Selection
