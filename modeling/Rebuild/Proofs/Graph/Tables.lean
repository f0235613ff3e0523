import Mathlib.Data.List.Sort
import Rebuild.Proofs.Graph.Selection

/-!
# Graphs in tables

Suppose that a graph is kept in three tables: its builders in order of mention, the place of each
identity, and the edges. Those next to a builder are found by their identities in the edges and by
the places of these, which are put in order without repetitions. The tables stay in step, whatever
is added and however the edges are edited, so all look-ups are those of the graph.

* `Tables`: a graph in three tables.
* `Tables.Mirrors`, `Mirrors.addNode`, `Mirrors.addEdge`, `Mirrors.edit`: the tables stay in step.
* `Mirrors.dependents_eq`, `Mirrors.prerequisites_eq`: both find the same builders.
* `Graph.Listed`: what is found next to a builder, for any edges.
-/
namespace Rebuild

/-! ## Numbering -/

namespace SortedMap

variable {κ : Type} [Ord κ] [Std.TransOrd κ] [Std.LawfulEqOrd κ] [BEq κ] [LawfulBEq κ]

/-- Every member of a list is found with its place, and nothing else is found. -/
def Numbers (m : SortedMap κ Nat) (l : List κ) : Prop := ∀ k, m.get? k = l.idxOf? k

theorem Numbers.insert {m : SortedMap κ Nat} {l : List κ} (h : m.Numbers l) {k : κ} (hk : k ∉ l) :
    (m.insert k l.length).Numbers (l ++ [k]) := by
  intro j
  show _ = (l ++ [k]).findIdx? (· == j)
  rw [List.findIdx?_append, List.findIdx?_singleton]
  by_cases hj : j = k
  · subst hj
    have hnone : l.findIdx? (· == j) = none := List.idxOf?_eq_none_iff.2 hk
    rw [get?_insert_self, hnone, beq_self_eq_true, if_pos rfl, Option.map_some, Nat.zero_add]
    rfl
  · rw [get?_insert_of_ne hj, h, beq_eq_false_iff_ne.2 (Ne.symm hj)]
    exact Option.or_none.symm

end SortedMap

/-! ## Places in order -/

/-- Keeps one of equal neighbours. -/
def dropRepeats : List Nat → List Nat
  | [] => []
  | [n] => [n]
  | m :: n :: l => if m = n then dropRepeats (n :: l) else m :: dropRepeats (n :: l)

theorem mem_dropRepeats {k : Nat} (l : List Nat) : k ∈ dropRepeats l ↔ k ∈ l := by
  fun_induction dropRepeats l with
  | case1 => exact .rfl
  | case2 n => exact .rfl
  | case3 n l ih =>
    rw [ih, List.mem_cons (a := k) (b := n) (l := n :: l)]
    exact (or_iff_right_of_imp fun h => h ▸ List.mem_cons_self).symm
  | case4 m n l hne ih => rw [List.mem_cons, ih, List.mem_cons (a := k) (b := m)]

theorem pairwise_dropRepeats {l : List Nat} (h : l.Pairwise (· ≤ ·)) :
    (dropRepeats l).Pairwise (· < ·) := by
  fun_induction dropRepeats l with
  | case1 => exact .nil
  | case2 n => exact List.pairwise_singleton _ _
  | case3 n l ih => exact ih h.tail
  | case4 m n l hne ih =>
    obtain ⟨hm, htail⟩ := List.pairwise_cons.1 h
    refine List.pairwise_cons.2 ⟨fun k hk => ?_, ih htail⟩
    have hmn := hm n List.mem_cons_self
    rcases List.mem_cons.1 ((mem_dropRepeats _).1 hk) with rfl | hk
    · omega
    · have hnk := (List.pairwise_cons.1 htail).1 k hk
      omega

theorem filterMap_getElem?_range {α : Type} (l : List α) :
    (List.range l.length).filterMap (l[·]?) = l := by
  have hmap : (List.range l.length).map (l[·]?) = l.map some := by
    refine List.ext_getElem? fun n => ?_
    rw [List.getElem?_map, List.getElem?_map]
    by_cases hn : n < l.length
    · rw [List.getElem?_range hn, List.getElem?_eq_getElem hn]
      exact congrArg some (List.getElem?_eq_getElem hn)
    · rw [List.getElem?_eq_none (by simpa using hn), List.getElem?_eq_none (by simpa using hn)]
      rfl
  calc (List.range l.length).filterMap (l[·]?)
      = ((List.range l.length).map (l[·]?)).filterMap id := by rw [List.filterMap_map]; rfl
    _ = (l.map some).filterMap id := by rw [hmap]
    _ = l := by rw [List.filterMap_map]; exact List.filterMap_some

theorem filterMap_getElem?_filter {α : Type} {l : List α} {p : α → Bool} {q : Nat → Bool}
    (h : ∀ n a, l[n]? = some a → q n = p a) :
    ((List.range l.length).filter q).filterMap (l[·]?) = l.filter p := by
  conv_rhs => rw [← filterMap_getElem?_range l]
  rw [List.filterMap_filter, List.filter_filterMap]
  refine List.filterMap_congr fun n _ => ?_
  cases hn : l[n]? with
  | none => exact ite_self none
  | some a =>
    rw [h n a hn, Option.filter_some]

/-! ## The tables -/

/-- The builders in order of mention, the place of each identity, and the edges. -/
structure Tables (β : Type) where
  nodes : List (BuilderId × β) := []
  places : SortedMap BuilderId Nat := ∅
  edges : EdgeSet := ∅

namespace Tables

variable {β : Type}

/-- Adds a builder at the next place, unless its identity has one; also the place. -/
def addNode (t : Tables β) (id : BuilderId) (b : β) : Nat × Tables β :=
  match t.places.get? id with
  | some n => (n, t)
  | none => (t.nodes.length, { t with
      nodes := t.nodes ++ [(id, b)]
      places := t.places.insert id t.nodes.length })

def addEdge (t : Tables β) (prerequisite dependent : BuilderId) : Tables β :=
  { t with edges := t.edges.insert ⟨prerequisite, dependent⟩ }

/-- The builders of identities: their places in order, without repetitions, and who stands there. -/
def collect (t : Tables β) (ids : List BuilderId) : List (BuilderId × β) :=
  (dropRepeats ((ids.filterMap t.places.get?).mergeSort fun m n => m ≤ n)).filterMap (t.nodes[·]?)

def dependents (t : Tables β) (id : BuilderId) : List (BuilderId × β) :=
  t.collect ((t.edges.toList.filter fun e => e.prerequisite == id).map Edge.dependent)

def prerequisites (t : Tables β) (id : BuilderId) : List (BuilderId × β) :=
  t.collect ((t.edges.toList.filter fun e => e.dependent == id).map Edge.prerequisite)

/-- The tables are in step, and hold a graph. -/
structure Mirrors (t : Tables β) (g : Graph β) : Prop where
  nodes : t.nodes = g.nodes
  places : t.places.Numbers g.ids
  edges : t.edges = g.edges

variable {t : Tables β} {g : Graph β}

theorem Mirrors.empty : ({} : Tables β).Mirrors {} := ⟨rfl, fun _ => rfl, rfl⟩

theorem Mirrors.addNode (h : t.Mirrors g) (id : BuilderId) (b : β) :
    (t.addNode id b).1 = (g.addNode id b).1 ∧ (t.addNode id b).2.Mirrors (g.addNode id b).2 := by
  unfold Tables.addNode Graph.addNode
  rw [h.places id]
  by_cases hid : id ∈ g.ids
  · obtain ⟨n, hn⟩ := Option.isSome_iff_exists.1 (List.isSome_idxOf?.2 hid)
    rw [dif_pos hid, hn, List.idxOf_eq_getD_idxOf?, hn]
    exact ⟨rfl, h⟩
  · rw [dif_neg hid, List.idxOf?_eq_none_iff.2 hid]
    refine ⟨congrArg List.length h.nodes, congrArg (· ++ [(id, b)]) h.nodes, ?_, h.edges⟩
    have hids : (g.nodes ++ [(id, b)]).map Prod.fst = g.ids ++ [id] := List.map_append
    have hlength : t.nodes.length = g.ids.length := by
      rw [h.nodes]
      exact (g.length_ids).symm
    show (t.places.insert id t.nodes.length).Numbers ((g.nodes ++ [(id, b)]).map Prod.fst)
    rw [hids, hlength]
    exact h.places.insert hid

theorem Mirrors.addEdge (h : t.Mirrors g) (prerequisite dependent : BuilderId) :
    (t.addEdge prerequisite dependent).Mirrors (g.addEdge prerequisite dependent) :=
  ⟨h.nodes, h.places, congrArg (fun edges : EdgeSet => edges.insert _) h.edges⟩

/-- The edges may be edited in any way. -/
theorem Mirrors.edit (h : t.Mirrors g) (edges : EdgeSet) :
    { t with edges }.Mirrors { g with edges } := ⟨h.nodes, h.places, rfl⟩

/-! ## Looking builders up -/

/-- Builders collected by their identities are those with these identities, in order of mention. -/
theorem Mirrors.collect_eq (h : t.Mirrors g) {ids : List BuilderId} {p : BuilderId → Bool}
    (hp : ∀ id, id ∈ ids ↔ p id = true) : t.collect ids = g.nodes.filter fun n => p n.1 := by
  unfold collect
  have hplaces : dropRepeats ((ids.filterMap t.places.get?).mergeSort fun m n => m ≤ n) =
      (List.range g.nodes.length).filter fun n => p (g.idAt n) := by
    refine List.Pairwise.eq_of_mem_iff (r := (· < ·)) (pairwise_dropRepeats ?_)
      (List.pairwise_lt_range.filter _) fun n => ?_
    · exact (List.pairwise_mergeSort (by simp; omega) (by simp; omega) _).imp of_decide_eq_true
    · rw [mem_dropRepeats, List.mem_mergeSort, List.mem_filterMap, List.mem_filter, List.mem_range]
      constructor
      · rintro ⟨id, hid, hn⟩
        obtain ⟨hlt, rfl⟩ := (g.index?_eq_some_iff id n).1 ((h.places id).symm.trans hn)
        exact ⟨hlt, (hp _).1 hid⟩
      · rintro ⟨hlt, hid⟩
        exact ⟨g.idAt n, (hp _).2 hid, (h.places _).trans (g.index?_idAt hlt)⟩
  rw [hplaces, h.nodes]
  exact filterMap_getElem?_filter fun n node hnode => congrArg p (g.idAt_of_getElem? hnode)

theorem Mirrors.dependents_eq (h : t.Mirrors g) (id : BuilderId) :
    t.dependents id = g.dependents id := by
  refine h.collect_eq (p := fun other => g.edges.contains ⟨id, other⟩) fun other => ?_
  rw [h.edges, List.mem_map]
  constructor
  · rintro ⟨e, he, rfl⟩
    obtain ⟨hmem, heq⟩ := List.mem_filter.1 he
    cases eq_of_beq heq
    exact (SortedSet.mem_toList _ _).1 hmem
  · intro hmem
    have hlisted := (SortedSet.mem_toList _ _).2 hmem
    exact ⟨⟨id, other⟩, List.mem_filter.2 ⟨hlisted, beq_self_eq_true id⟩, rfl⟩

theorem Mirrors.prerequisites_eq (h : t.Mirrors g) (id : BuilderId) :
    t.prerequisites id = g.prerequisites id := by
  refine h.collect_eq (p := fun other => g.edges.contains ⟨other, id⟩) fun other => ?_
  rw [h.edges, List.mem_map]
  constructor
  · rintro ⟨e, he, rfl⟩
    obtain ⟨hmem, heq⟩ := List.mem_filter.1 he
    cases eq_of_beq heq
    exact (SortedSet.mem_toList _ _).1 hmem
  · intro hmem
    have hlisted := (SortedSet.mem_toList _ _).2 hmem
    exact ⟨⟨other, id⟩, List.mem_filter.2 ⟨hlisted, beq_self_eq_true id⟩, rfl⟩

end Tables

/-! ## Neighbours -/

namespace Graph

variable {β : Type}

/-- Builders next to one are listed in order of mention, none twice, and are those that an edge
joins with it. -/
structure Listed (g : Graph β) (found : List (BuilderId × β)) (joined : BuilderId → Prop) :
    Prop where
  in_order : found.Sublist g.nodes
  nodup : (found.map Prod.fst).Nodup
  mem : ∀ id, id ∈ found.map Prod.fst ↔ g.contains id = true ∧ joined id

theorem Listed.filter (g : Graph β) (p : BuilderId → Bool) :
    g.Listed (g.nodes.filter fun n => p n.1) fun id => p id = true := by
  refine ⟨List.filter_sublist, (List.filter_sublist.map Prod.fst).nodup g.distinct, fun id => ?_⟩
  unfold contains ids
  rw [List.contains_iff_mem, List.mem_map, List.mem_map]
  constructor
  · rintro ⟨node, hnode, rfl⟩
    obtain ⟨hnode, hp⟩ := List.mem_filter.1 hnode
    exact ⟨⟨node, hnode, rfl⟩, hp⟩
  · rintro ⟨⟨node, hnode, rfl⟩, hp⟩
    exact ⟨node, List.mem_filter.2 ⟨hnode, hp⟩, rfl⟩

/-- Whoever needs a builder, and whom it needs, whatever the edges are. -/
theorem listed_dependents (g : Graph β) (id : BuilderId) :
    g.Listed (g.dependents id) fun other => ⟨id, other⟩ ∈ g.edges :=
  .filter g fun other => g.edges.contains ⟨id, other⟩

theorem listed_prerequisites (g : Graph β) (id : BuilderId) :
    g.Listed (g.prerequisites id) fun other => ⟨other, id⟩ ∈ g.edges :=
  .filter g fun other => g.edges.contains ⟨other, id⟩

end Graph

end Rebuild
