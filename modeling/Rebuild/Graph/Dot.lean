import Rebuild.Graph.Selection

/-!
# Graphviz text

The selected part of a graph in the DOT language: a line for each builder, numbered in order of
mention, and a line for each edge, in the order of the edge set.
-/
namespace Rebuild

/-- One character of a label. -/
def Dot.escapeChar (c : Char) : List Char :=
  if c = '"' ∨ c = '\\' then ['\\', c]
  else if c = '\n' then ['\\', 'l']
  else [c]

/-- The characters of a label between its quotes. -/
def Dot.label (s : String) : String := String.ofList (s.toList.flatMap Dot.escapeChar)

/-- The line of a builder. -/
def Dot.nodeLine (n : Nat) (label : String) : String :=
  "    " ++ toString n ++ " [ label = \"" ++ Dot.label label ++ "\" ]\n"

/-- The line of an edge. -/
def Dot.edgeLine (a b : Nat) : String :=
  "    " ++ toString a ++ " -> " ++ toString b ++ " [ label = \"prerequisite\" ]\n"

/-- The whole text for labelled nodes and edges between their numbers. -/
def Dot.text (labels : List String) (edges : List (Nat × Nat)) : String :=
  "digraph \x7b\n"
    ++ String.join (labels.mapIdx Dot.nodeLine)
    ++ String.join (edges.map fun (a, b) => Dot.edgeLine a b)
    ++ "\x7d\n\n"

/-- The DOT text of the graph, or of the part that a root needs. -/
def Graph.dot {β : Type} (g : Graph β) (root : Option BuilderId) : Except GraphError String := do
  let s ← g.select root
  return Dot.text (s.places.map fun n => (g.idAt n).text)
    (s.edges.map fun (a, b) => (s.places.idxOf a, s.places.idxOf b))

end Rebuild
