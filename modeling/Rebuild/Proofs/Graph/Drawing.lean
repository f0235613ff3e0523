import Mathlib.Data.List.Nodup
import Std.Data.String.ToNat
import Rebuild.Graph.Dot
import Rebuild.Proofs.Graph.Levels
import Rebuild.Proofs.Graph.Tables

/-!
# Drawings show what would be planned

A drawing is made on its own: the selected builders get numbers, and an edge is drawn if both of its
ends got one. Still it is refused only where planning is refused for somebody unknown, and shows
what is planned. Its text can be read in one way only, whatever the identities are: a label is over
at the first quote that no backslash stands before, and no line imitates one of another kind.

* `Drawing`, `Graph.drawing`, `dot_eq`: a drawing made step by step.
* `Graph.Shown`, `Selection.Exact.shown`: which builders and edges it shows.
* `Dot.label_cancel`, `Dot.nodeLines_cancel`, `Dot.edgeLines_cancel`: reading the text.
* `dot_exact`: what drawing comes to.
-/
namespace Rebuild

/-! ## Drawing step by step -/

/-- The labels by number, the number that each place got, and the edges between numbers. -/
structure Drawing where
  labels : List String := []
  numbers : SortedMap Nat Nat := ∅
  edges : List (Nat × Nat) := []

namespace Drawing

/-- Draws the builder of a place, with the next number. -/
def addNode (label : Nat → String) (d : Drawing) (n : Nat) : Drawing :=
  { d with labels := d.labels ++ [label n], numbers := d.numbers.insert n d.labels.length }

/-- Draws an edge if both ends are drawn. -/
def addEdge (d : Drawing) (e : Nat × Nat) : Drawing :=
  match d.numbers.get? e.1, d.numbers.get? e.2 with
  | some a, some b => { d with edges := d.edges ++ [(a, b)] }
  | _, _ => d

/-- The builders of the places are drawn, in this order, and no edges yet. -/
structure Places (d : Drawing) (label : Nat → String) (places : List Nat) : Prop where
  labels : d.labels = places.map label
  numbers : d.numbers.Numbers places
  edges : d.edges = []

variable {d : Drawing} {label : Nat → String} {places : List Nat}

theorem Places.addNode (h : d.Places label places) {n : Nat} (hn : n ∉ places) :
    (d.addNode label n).Places label (places ++ [n]) := by
  refine ⟨?_, ?_, h.edges⟩
  · show d.labels ++ [label n] = _
    rw [h.labels, List.map_append, List.map_singleton]
  · show (d.numbers.insert n d.labels.length).Numbers _
    rw [h.labels, List.length_map]
    exact h.numbers.insert hn

theorem Places.foldl : ∀ {more : List Nat} {d : Drawing} {places : List Nat},
    d.Places label places → (places ++ more).Nodup →
      (more.foldl (Drawing.addNode label) d).Places label (places ++ more)
  | [], _, _, h, _ => by rwa [List.append_nil]
  | n :: more, d, places, h, hnodup => by
    have hfresh : n ∉ places := fun hn =>
      (List.nodup_append.1 hnodup).2.2 n hn n List.mem_cons_self rfl
    rw [List.append_cons] at hnodup ⊢
    exact Places.foldl (h.addNode hfresh) hnodup

theorem foldl_addEdge : ∀ (edges : List (Nat × Nat)) (d : Drawing),
    edges.foldl addEdge d = { d with
      edges := d.edges ++ edges.filterMap fun e =>
        (d.numbers.get? e.1).bind fun a => (d.numbers.get? e.2).map fun b => (a, b) }
  | [], d => by rw [List.filterMap_nil, List.append_nil]; rfl
  | e :: edges, d => by
    rw [List.foldl_cons, foldl_addEdge edges, List.filterMap_cons]
    unfold addEdge
    cases ha : d.numbers.get? e.1 with
    | none => rfl
    | some a =>
      cases hb : d.numbers.get? e.2 with
      | none => rfl
      | some b =>
        simp only [Option.bind_some, Option.map_some]
        rw [List.append_assoc, List.singleton_append]

end Drawing

/-- The selected part of the graph, drawn builder by builder and edge by edge. -/
def Graph.drawing {β : Type} (g : Graph β) (root : Option BuilderId) :
    Except GraphError Drawing := do
  let edges ← g.indexEdges
  let s ← g.select root
  return edges.foldl Drawing.addEdge
    (s.places.foldl (Drawing.addNode fun n => (g.idAt n).text) {})

theorem idxOf?_eq (l : List Nat) (n : Nat) :
    l.idxOf? n = if l.contains n then some (l.idxOf n) else none := by
  rw [List.idxOf_eq_getD_idxOf?]
  cases hn : l.idxOf? n with
  | none =>
    rw [if_neg]
    rw [List.contains_iff_mem]
    exact List.idxOf?_eq_none_iff.1 hn
  | some k =>
    rw [if_pos]
    · rfl
    · rw [List.contains_iff_mem, ← List.isSome_idxOf?, hn]
      rfl

section Selecting

variable {β : Type} {g : Graph β} {root : Option BuilderId} {s : Selection}

namespace Selection

theorem edges_of_select (hs : g.select root = .ok s) : s.places.Sublist (List.range g.size) ∧
    ∃ edges, g.indexEdges = .ok edges ∧
      s.edges = edges.filter fun e => s.places.contains e.1 && s.places.contains e.2 := by
  obtain ⟨edges, hindex, hs⟩ := ok_of_bind hs
  have hlt : ∀ e ∈ edges, e.1 < g.size ∧ e.2 < g.size := fun e he =>
    have h := (g.mem_indexEdges hindex e.1 e.2).1 he
    ⟨h.1, h.2.1⟩
  cases root with
  | none =>
    cases hs
    refine ⟨.refl _, edges, hindex, ?_⟩
    refine (List.filter_eq_self.2 fun e he => ?_).symm
    rw [Bool.and_eq_true, List.contains_iff_mem, List.contains_iff_mem, List.mem_range,
      List.mem_range]
    exact hlt e he
  | some root =>
    obtain ⟨r, -, hs⟩ := ok_of_bind hs
    cases hs
    refine ⟨List.filter_sublist, edges, hindex, List.filter_congr fun e he => ?_⟩
    rw [Bool.eq_iff_iff]
    simp only [Bool.and_eq_true, List.contains_iff_mem, List.mem_filter, List.mem_range, hlt e he,
      true_and]

end Selection

/-- Drawn step by step, the text is the same. -/
theorem dot_eq (g : Graph β) (root : Option BuilderId) :
    g.dot root = (g.drawing root).map fun d => Dot.text d.labels d.edges := by
  unfold Graph.drawing Graph.dot
  cases hs : g.select root with
  | error e =>
    cases hindex : g.indexEdges with
    | error e' =>
      unfold Graph.select at hs
      rw [hindex] at hs
      cases hs
      rfl
    | ok edges => rfl
  | ok s =>
    obtain ⟨hplaces, edges, hindex, hedges⟩ := Selection.edges_of_select hs
    have hdrawn : ({} : Drawing).Places (fun n => (g.idAt n).text) [] := ⟨rfl, fun n => rfl, rfl⟩
    have hdrawn := Drawing.Places.foldl hdrawn (hplaces.nodup List.nodup_range)
    rw [hindex, bind_ok rfl, bind_ok rfl, bind_ok rfl, Drawing.foldl_addEdge]
    refine congrArg Except.ok (congrArg₂ Dot.text hdrawn.labels.symm ?_)
    dsimp only
    rw [hdrawn.edges, List.nil_append, hedges, ← List.filterMap_eq_map, List.filterMap_filter]
    refine List.filterMap_congr fun e _ => ?_
    rw [hdrawn.numbers e.1, hdrawn.numbers e.2, List.nil_append, idxOf?_eq, idxOf?_eq]
    cases s.places.contains e.1 <;> cases s.places.contains e.2 <;> rfl

/-! ## What is shown -/

/-- The numbers of the ends of an edge among identities. -/
def Edge.numbers (ids : List BuilderId) (e : Edge) : Nat × Nat :=
  (ids.idxOf e.prerequisite, ids.idxOf e.dependent)

/-- What is shown of the part that a root needs: exactly the selected builders, in order of mention,
and exactly the edges between them, in the order of the edge set. The builders are those of the
plan, if there is one. -/
structure Graph.Shown (g : Graph β) (root : Option BuilderId) (ids : List BuilderId)
    (edges : List Edge) : Prop where
  in_order : ids.Sublist g.ids
  mem_ids : ∀ id, id ∈ ids ↔ g.Selects root id
  edges_in_order : edges.Sublist g.edges.toList
  mem_edges : ∀ e, e ∈ edges ↔ e ∈ g.edges ∧ e.prerequisite ∈ ids ∧ e.dependent ∈ ids
  planned : ∀ plan, g.plan root = .ok plan →
    ∀ id, id ∈ ids ↔ ∃ n ∈ plan.waves.flatten, g.idAt n = id

theorem idxOf_map {α γ : Type} [BEq α] [LawfulBEq α] [BEq γ] [LawfulBEq γ] {f : α → γ} {a : α} :
    ∀ {l : List α}, (∀ b ∈ l, f b = f a → b = a) → (l.map f).idxOf (f a) = l.idxOf a
  | [], _ => rfl
  | b :: l, hinj => by
    have heq : (f b == f a) = (b == a) := by
      rw [Bool.eq_iff_iff, beq_iff_eq, beq_iff_eq]
      exact ⟨hinj b List.mem_cons_self, congrArg f⟩
    rw [List.map_cons, List.idxOf_cons, List.idxOf_cons, heq,
      idxOf_map fun b hb => hinj b (List.mem_cons_of_mem _ hb)]

namespace Graph

theorem map_idAt_range (g : Graph β) : (List.range g.size).map g.idAt = g.ids := by
  refine List.ext_getElem? fun n => ?_
  rw [List.getElem?_map]
  by_cases hn : n < g.size
  · rw [List.getElem?_range hn, g.idAt_of_lt hn]
    rfl
  · rw [List.getElem?_eq_none (by simpa using hn),
      List.getElem?_eq_none (by rw [length_ids]; omega)]
    rfl

theorem idxOf_idAt {n : Nat} (hn : n < g.size) : g.ids.idxOf (g.idAt n) = n := by
  have hindex := g.index?_idAt hn
  unfold index? at hindex
  rw [List.idxOf_eq_getD_idxOf?, hindex]
  rfl

theorem idxOf_of_lookup {id : BuilderId} {n : Nat} (h : g.lookup id = .ok n) :
    n = g.ids.idxOf id := by
  obtain ⟨hn, rfl⟩ := (g.lookup_eq_ok_iff id n).1 h
  exact (idxOf_idAt hn).symm

theorem indexEdges_eq {edges : List (Nat × Nat)} (h : g.indexEdges = .ok edges) :
    edges = g.edges.toList.map (Edge.numbers g.ids) := by
  refine eq_map_of_mapM_ok h fun e _ pair hpair => ?_
  obtain ⟨m, hm, hpair⟩ := ok_of_bind hpair
  obtain ⟨n, hn, hpair⟩ := ok_of_bind hpair
  cases hpair
  exact congrArg₂ Prod.mk (idxOf_of_lookup hm) (idxOf_of_lookup hn)

end Graph

namespace Selection

/-- Whatever plan there is, it has the selected builders in levels. -/
theorem Exact.levels_of_plan (h : s.Exact g root) (hs : g.select root = .ok s) {plan : Plan}
    (hplan : g.plan root = .ok plan) : plan.Levels g root := by
  have hcases := plan_cases hs
  rw [hplan] at hcases
  split at hcases
  next waves _ hpeel =>
    cases hcases
    exact h.levels (sound_of_select hs) hpeel
  next =>
    obtain ⟨id, herror⟩ := hcases
    cases herror

theorem Exact.shown (h : s.Exact g root) (hs : g.select root = .ok s) :
    ∃ edges, g.Shown root (s.places.map g.idAt) edges ∧
      (s.edges.map fun e => (s.places.idxOf e.1, s.places.idxOf e.2)) =
        edges.map (Edge.numbers (s.places.map g.idAt)) := by
  obtain ⟨hplaces, all, hindex, hedges⟩ := edges_of_select hs
  have hids (id : BuilderId) : id ∈ s.places.map g.idAt ↔ g.Selects root id := by
    rw [List.mem_map]
    constructor
    · rintro ⟨n, hn, rfl⟩
      exact ((h.mem_places n).1 hn).2
    · intro hid
      obtain ⟨n, hn, rfl⟩ := (g.contains_iff id).1 hid.1
      exact ⟨n, (h.mem_places n).2 ⟨hn, hid⟩, rfl⟩
  have hplace {id : BuilderId} (hid : g.contains id = true) :
      (g.ids.idxOf id ∈ s.places ↔ id ∈ s.places.map g.idAt) ∧
        s.places.idxOf (g.ids.idxOf id) = (s.places.map g.idAt).idxOf id := by
    obtain ⟨n, hn, rfl⟩ := (g.contains_iff id).1 hid
    rw [Graph.idxOf_idAt hn, hids, h.mem_places]
    refine ⟨and_iff_right hn, (idxOf_map fun m hm heq => ?_).symm⟩
    exact g.idAt_injective ((h.mem_places m).1 hm).1 hn heq
  rw [Graph.indexEdges_eq hindex, List.filter_map] at hedges
  have hmem (e : Edge) : e ∈ g.edges.toList.filter ((fun e => s.places.contains e.1 &&
      s.places.contains e.2) ∘ Edge.numbers g.ids) ↔ e ∈ g.edges ∧
        e.prerequisite ∈ s.places.map g.idAt ∧ e.dependent ∈ s.places.map g.idAt := by
    rw [List.mem_filter, SortedSet.mem_toList, Function.comp_apply, Bool.and_eq_true,
      List.contains_iff_mem, List.contains_iff_mem]
    refine and_congr_right fun he => ?_
    obtain ⟨hprerequisite, hdependent⟩ := g.ends_of_indexEdges hindex he
    exact and_congr (hplace hprerequisite).1 (hplace hdependent).1
  refine ⟨_, ⟨?_, hids, List.filter_sublist, hmem, fun plan hplan id => ?_⟩, ?_⟩
  · rw [← g.map_idAt_range]
    exact hplaces.map g.idAt
  · have hlevels := h.levels_of_plan hs hplan
    rw [hids]
    constructor
    · intro hid
      obtain ⟨n, hn, rfl⟩ := (g.contains_iff id).1 hid.1
      exact ⟨n, (hlevels.mem n).2 ⟨hn, hid⟩, rfl⟩
    · rintro ⟨n, hn, rfl⟩
      exact ((hlevels.mem n).1 hn).2
  · rw [hedges, List.map_map]
    refine List.map_congr_left fun e he => ?_
    obtain ⟨hprerequisite, hdependent⟩ := g.ends_of_indexEdges hindex ((hmem e).1 he).1
    exact congrArg₂ Prod.mk (hplace hprerequisite).2 (hplace hdependent).2

end Selection

end Selecting

/-! ## Reading the text -/

namespace Dot

/-- What stands before the first of some character can be told. -/
theorem append_cons_cancel {c : Char} {l l' : List Char} : ∀ {s t : List Char}, c ∉ s → c ∉ t →
    s ++ c :: l = t ++ c :: l' → s = t ∧ l = l'
  | [], [], _, _, h => ⟨rfl, (List.cons.inj h).2⟩
  | [], d :: t, _, ht, h => absurd (List.cons.inj h).1 fun e => ht (e ▸ List.mem_cons_self)
  | d :: s, [], hs, _, h => absurd (List.cons.inj h).1 fun e => hs (e ▸ List.mem_cons_self)
  | d :: s, d' :: t, hs, ht, h => by
    obtain ⟨rfl, htail⟩ := List.cons.inj h
    obtain ⟨rfl, hrest⟩ := append_cons_cancel (fun hc => hs (List.mem_cons_of_mem _ hc))
      (fun hc => ht (List.mem_cons_of_mem _ hc)) htail
    exact ⟨rfl, hrest⟩

theorem toList_toString (n : Nat) : (toString n).toList = Nat.toDigits 10 n := String.toList_ofList

theorem number_cancel {m n : Nat} {l l' : List Char}
    (h : (toString m).toList ++ ' ' :: l = (toString n).toList ++ ' ' :: l') : m = n ∧ l = l' := by
  have hdigits (n : Nat) : ' ' ∉ (toString n).toList := fun hmem => by
    rw [toList_toString] at hmem
    cases Nat.isDigit_of_mem_toDigits (by decide) (by decide) hmem
  obtain ⟨hnumbers, hrest⟩ := append_cons_cancel (hdigits m) (hdigits n) h
  exact ⟨Nat.repr_injective (String.toList_inj.1 hnumbers), hrest⟩

/-! ### Labels -/

theorem escapeChar_cancel {c c' : Char} {l l' : List Char}
    (h : escapeChar c ++ l = escapeChar c' ++ l') : c = c' ∧ l = l' := by
  unfold escapeChar at h
  grind

theorem quote_ne_escapeChar (c : Char) (l l' : List Char) : '"' :: l ≠ escapeChar c ++ l' := by
  unfold escapeChar
  grind

/-- A label is over at the first quote that is not escaped. -/
theorem label_cancel {l l' : List Char} : ∀ {s t : List Char},
    s.flatMap escapeChar ++ '"' :: l = t.flatMap escapeChar ++ '"' :: l' → s = t ∧ l = l'
  | [], [], h => ⟨rfl, (List.cons.inj h).2⟩
  | [], c :: t, h => by
    rw [List.flatMap_cons, List.append_assoc] at h
    exact absurd h (quote_ne_escapeChar _ _ _)
  | c :: s, [], h => by
    rw [List.flatMap_cons, List.append_assoc] at h
    exact absurd h.symm (quote_ne_escapeChar _ _ _)
  | c :: s, c' :: t, h => by
    rw [List.flatMap_cons, List.flatMap_cons, List.append_assoc, List.append_assoc] at h
    obtain ⟨rfl, htail⟩ := escapeChar_cancel h
    obtain ⟨rfl, hrest⟩ := label_cancel htail
    exact ⟨rfl, hrest⟩

/-! ### Lines -/

theorem toList_nodeLine (n : Nat) (label : String) (rest : List Char) :
    (nodeLine n label).toList ++ rest = "    ".toList ++ ((toString n).toList ++ ' ' ::
      ("[ label = \"".toList ++ (label.toList.flatMap escapeChar ++ '"' ::
        (" ]\n".toList ++ rest)))) := by
  unfold nodeLine Dot.label
  simp only [String.toList_append, List.append_assoc, String.toList_ofList]
  rfl

theorem toList_edgeLine (a b : Nat) (rest : List Char) :
    (edgeLine a b).toList ++ rest = "    ".toList ++ ((toString a).toList ++ ' ' ::
      ("-> ".toList ++ ((toString b).toList ++ ' ' ::
        ("[ label = \"prerequisite\" ]\n".toList ++ rest)))) := by
  unfold edgeLine
  simp only [String.toList_append, List.append_assoc]
  rfl

theorem nodeLine_cancel {m n : Nat} {label label' : String} {rest rest' : List Char}
    (h : (nodeLine m label).toList ++ rest = (nodeLine n label').toList ++ rest') :
    label = label' ∧ rest = rest' := by
  rw [toList_nodeLine, toList_nodeLine] at h
  obtain ⟨-, h⟩ := number_cancel (List.append_cancel_left h)
  obtain ⟨hlabel, h⟩ := label_cancel (List.append_cancel_left h)
  exact ⟨String.toList_inj.1 hlabel, List.append_cancel_left h⟩

theorem edgeLine_cancel {a b a' b' : Nat} {rest rest' : List Char}
    (h : (edgeLine a b).toList ++ rest = (edgeLine a' b').toList ++ rest') :
    (a, b) = (a', b') ∧ rest = rest' := by
  rw [toList_edgeLine, toList_edgeLine] at h
  obtain ⟨ha, harrow⟩ := number_cancel (List.append_cancel_left h)
  obtain ⟨hb, hend⟩ := number_cancel (List.append_cancel_left harrow)
  exact ⟨congrArg₂ Prod.mk ha hb, List.append_cancel_left hend⟩

/-- Behind its number the line of a builder is not like that of an edge. -/
theorem nodeLine_ne_edgeLine {n a b : Nat} {label : String} {rest rest' : List Char} :
    (nodeLine n label).toList ++ rest ≠ (edgeLine a b).toList ++ rest' := by
  intro h
  rw [toList_nodeLine, toList_edgeLine] at h
  obtain ⟨-, h⟩ := number_cancel (List.append_cancel_left h)
  cases h

/-- The lines of the edges and the end of the text. -/
def ending (edges : List (Nat × Nat)) : List Char :=
  (edges.flatMap fun e => (edgeLine e.1 e.2).toList) ++ "\x7d\n\n".toList

theorem ending_cons (e : Nat × Nat) (edges : List (Nat × Nat)) :
    ending (e :: edges) = (edgeLine e.1 e.2).toList ++ ending edges := by
  unfold ending
  rw [List.flatMap_cons, List.append_assoc]

theorem ending_nil_ne (edges : List (Nat × Nat)) (e : Nat × Nat) :
    ending [] ≠ ending (e :: edges) := by
  rw [ending_cons, toList_edgeLine]
  exact nofun

theorem ending_injective {edges edges' : List (Nat × Nat)} (h : ending edges = ending edges') :
    edges = edges' := by
  induction edges generalizing edges' with
  | nil =>
    cases edges' with
    | nil => rfl
    | cons e edges' => exact absurd h (ending_nil_ne edges' e)
  | cons e edges ih =>
    cases edges' with
    | nil => exact absurd h.symm (ending_nil_ne edges e)
    | cons e' edges' =>
      rw [ending_cons, ending_cons] at h
      obtain ⟨he, hrest⟩ := edgeLine_cancel h
      rw [ih hrest]
      exact congrArg (· :: edges') he

theorem ending_ne_nodeLine (edges : List (Nat × Nat)) (n : Nat) (label : String)
    (rest : List Char) : ending edges ≠ (nodeLine n label).toList ++ rest := by
  cases edges with
  | nil =>
    rw [toList_nodeLine]
    exact nofun
  | cons e edges =>
    rw [ending_cons]
    exact nodeLine_ne_edgeLine.symm

/-- The lines of the builders can be told from those of the edges, and from one another. -/
theorem nodeLines_cancel {labels labels' : List String} {edges edges' : List (Nat × Nat)} {k : Nat}
    (h : ((labels.mapIdx fun i => nodeLine (i + k)).flatMap String.toList) ++ ending edges =
      ((labels'.mapIdx fun i => nodeLine (i + k)).flatMap String.toList) ++ ending edges') :
    labels = labels' ∧ edges = edges' := by
  induction labels generalizing labels' k with
  | nil =>
    cases labels' with
    | nil => exact ⟨rfl, ending_injective (List.append_cancel_left h)⟩
    | cons label' labels' =>
      rw [List.mapIdx_nil, List.flatMap_nil, List.nil_append, List.mapIdx_cons, List.flatMap_cons,
        List.append_assoc] at h
      exact absurd h (ending_ne_nodeLine _ _ _ _)
  | cons label labels ih =>
    rw [List.mapIdx_cons, List.flatMap_cons, List.append_assoc] at h
    cases labels' with
    | nil =>
      rw [List.mapIdx_nil, List.flatMap_nil, List.nil_append] at h
      exact absurd h.symm (ending_ne_nodeLine _ _ _ _)
    | cons label' labels' =>
      rw [List.mapIdx_cons, List.flatMap_cons, List.append_assoc] at h
      obtain ⟨rfl, hrest⟩ := nodeLine_cancel h
      simp only [Nat.add_assoc] at hrest
      obtain ⟨rfl, hedges⟩ := ih hrest
      exact ⟨rfl, hedges⟩

/-- The text tells the labels and the edges. -/
theorem eq_of_text_eq {labels labels' : List String} {edges edges' : List (Nat × Nat)}
    (h : text labels edges = text labels' edges') : labels = labels' ∧ edges = edges' := by
  have hread (labels : List String) (edges : List (Nat × Nat)) : (text labels edges).toList =
      "digraph \x7b\n".toList ++
        ((labels.mapIdx nodeLine).flatMap String.toList ++ ending edges) := by
    unfold text ending
    simp only [String.toList_append, String.toList_join, List.append_assoc, List.flatMap_map]
  have hlists := congrArg String.toList h
  rw [hread, hread] at hlists
  exact nodeLines_cancel (k := 0) (List.append_cancel_left hlists)

end Dot

/-- A drawing made step by step is refused exactly where planning is refused for somebody unknown.
Otherwise it shows the builders that are planned and the edges between them, and no other labels or
edges have its text. -/
theorem dot_exact {β : Type} (g : Graph β) (root : Option BuilderId) :
    (g.dot root = (g.drawing root).map fun d => Dot.text d.labels d.edges) ∧
    (∀ e, g.dot root = .error e ↔ g.plan root = .error e ∧ ∃ id, e = .unknown id) ∧
    ∀ text, g.dot root = .ok text → ∃ ids edges, g.Shown root ids edges ∧
      text = Dot.text (ids.map BuilderId.text) (edges.map (Edge.numbers ids)) ∧
      ∀ labels' edges', text = Dot.text labels' edges' →
        labels' = ids.map BuilderId.text ∧ edges' = edges.map (Edge.numbers ids) := by
  refine ⟨dot_eq g root, ?_⟩
  have hselect := Selection.select_cases g root
  cases hunknown : g.unknown? root with
  | some id =>
    rw [hunknown] at hselect
    have hdot : g.dot root = .error (.unknown id) := by
      unfold Graph.dot
      rw [hselect]
      rfl
    have hplan : g.plan root = .error (.unknown id) := by
      unfold Graph.plan
      rw [hselect]
      rfl
    rw [hdot, hplan]
    refine ⟨fun e => ?_, nofun⟩
    rw [Except.error.injEq, Except.error.injEq]
    exact ⟨fun he => ⟨he, id, he.symm⟩, fun h => h.1⟩
  | none =>
    rw [hunknown] at hselect
    obtain ⟨s, hs, hexact⟩ := hselect
    obtain ⟨edges, hshown, hnumbers⟩ := hexact.shown hs
    have hdot : g.dot root = .ok (Dot.text ((s.places.map g.idAt).map BuilderId.text)
        (edges.map (Edge.numbers (s.places.map g.idAt)))) := by
      unfold Graph.dot
      rw [bind_ok hs, ← hnumbers, List.map_map]
      rfl
    rw [hdot]
    refine ⟨fun e => ⟨nofun, ?_⟩, ?_⟩
    · rintro ⟨herror, id, rfl⟩
      exact absurd herror (Selection.plan_ne_unknown hs id)
    · rintro text heq
      cases heq
      refine ⟨_, edges, hshown, rfl, fun labels' edges' heq => ?_⟩
      obtain ⟨hlabels, hedges⟩ := Dot.eq_of_text_eq heq
      exact ⟨hlabels.symm, hedges.symm⟩

end Rebuild
