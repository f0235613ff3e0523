import Rebuild.Builder.Id
import Rebuild.Sorted.Set

/-!
# The builder graph

Builders in the order in which they were first mentioned, and a set of edges between identities. An
identity occurs once (`Graph.distinct`); an edge may name identities that no builder has.

* `Graph.addNode`, `Graph.addEdge`: building the graph up; the first builder of an identity stays.
* `Graph.dependents`, `Graph.prerequisites`: the builders next to one, in order of mention.
-/
namespace Rebuild
open Std

/-- `prerequisite` must finish before `dependent` starts. -/
structure Edge where
  prerequisite : BuilderId
  dependent : BuilderId
  deriving DecidableEq, Repr

namespace Edge

instance : Ord Edge := ⟨compareLex (compareOn prerequisite) (compareOn dependent)⟩

instance : TransOrd Edge :=
  inferInstanceAs (TransCmp (compareLex (compareOn prerequisite) (compareOn dependent)))

instance : LawfulEqOrd Edge where
  compare_self {a} := compareLex_eq_eq.2 ⟨ReflOrd.compare_self, ReflOrd.compare_self⟩
  eq_of_compare {a b} h := by
    obtain ⟨h1, h2⟩ := compareLex_eq_eq.1 h
    cases a; cases b
    simp only [mk.injEq]
    exact ⟨LawfulEqOrd.eq_of_compare h1, LawfulEqOrd.eq_of_compare h2⟩

/-- The edge the other way round. -/
def swap (e : Edge) : Edge := ⟨e.dependent, e.prerequisite⟩

end Edge

/-- The edges of a graph, in order. -/
abbrev EdgeSet := SortedSet Edge

/-- Builders and the edges between their identities. -/
structure Graph (β : Type) where
  nodes : List (BuilderId × β) := []
  edges : EdgeSet := ∅
  distinct : (nodes.map Prod.fst).Nodup := by simp

namespace Graph

variable {β : Type}

/-- The identities, in order of first mention. -/
def ids (g : Graph β) : List BuilderId := g.nodes.map Prod.fst

/-- The place of an identity. -/
def index? (g : Graph β) (id : BuilderId) : Option Nat := g.ids.idxOf? id

def contains (g : Graph β) (id : BuilderId) : Bool := g.ids.contains id

/-- The builder of an identity. -/
def get? (g : Graph β) (id : BuilderId) : Option β :=
  (g.nodes.find? fun n => n.1 == id).map Prod.snd

/-- The number of builders. -/
def size (g : Graph β) : Nat := g.nodes.length

def isEmpty (g : Graph β) : Bool := g.nodes.isEmpty

/-- Adds a builder, unless its identity has one; also the place of the identity. -/
def addNode (g : Graph β) (id : BuilderId) (b : β) : Nat × Graph β :=
  if h : id ∈ g.ids then (g.ids.idxOf id, g)
  else (g.size, { g with
    nodes := g.nodes ++ [(id, b)]
    distinct := by
      rw [List.map_append, List.nodup_append]
      refine ⟨g.distinct, by simp, fun a ha b hb => ?_⟩
      rw [List.map_singleton, List.mem_singleton] at hb
      intro he
      have : a = id := he.trans hb
      exact h (this ▸ ha) })

def addEdge (g : Graph β) (prerequisite dependent : BuilderId) : Graph β :=
  { g with edges := g.edges.insert ⟨prerequisite, dependent⟩ }

/-- The builders that name `id` as a prerequisite, in order of mention. -/
def dependents (g : Graph β) (id : BuilderId) : List (BuilderId × β) :=
  g.nodes.filter fun n => g.edges.contains ⟨id, n.1⟩

/-- The direct prerequisites of `id`, in order of mention. -/
def prerequisites (g : Graph β) (id : BuilderId) : List (BuilderId × β) :=
  g.nodes.filter fun n => g.edges.contains ⟨n.1, id⟩

end Graph

end Rebuild
