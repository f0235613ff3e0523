import Rebuild.Graph.Selection
import Rebuild.Proofs.Except

/-!
# What a run concerns

Places and identities name the same builders, and the pairs of places that
`Graph.indexEdges` gives are the edges. What a root selects is closed: whatever
a selected builder needs is selected as well, because the search has fuel enough
to look at every place it reaches.

* `index?_eq_some_iff`: the place of an identity.
* `mem_indexEdges`: the edges as pairs of places.
* `Selection.Sound`, `sound_of_select`: what holds of every selection.
-/
namespace Rebuild

/-! ## Lists -/

theorem nodup_eraseDups {α : Type} [BEq α] [LawfulBEq α] (l : List α) : l.eraseDups.Nodup := by
  match l with
  | [] => simp
  | a :: as =>
    have : (as.filter fun b => !b == a).length < as.length + 1 :=
      Nat.lt_succ_of_le (List.length_filter_le _ as)
    rw [List.eraseDups_cons, List.nodup_cons]
    exact ⟨by simp, nodup_eraseDups _⟩
termination_by l.length

namespace Graph

variable {β : Type} (g : Graph β)

/-! ## Places -/

theorem length_ids : g.ids.length = g.size := List.length_map ..

theorem idAt_of_lt {n : Nat} (h : n < g.size) : g.ids[n]? = some (g.idAt n) := by
  have hn : n < g.ids.length := by rw [length_ids]; exact h
  unfold idAt
  rw [List.getD_eq_getElem?_getD, List.getElem?_eq_getElem hn]
  rfl

theorem idAt_of_getElem? {n : Nat} {id : BuilderId} {b : β} (h : g.nodes[n]? = some (id, b)) :
    g.idAt n = id := by
  unfold idAt ids
  rw [List.getD_eq_getElem?_getD, List.getElem?_map, h]
  rfl

theorem idAt_injective {m n : Nat} (hm : m < g.size) (hn : n < g.size)
    (h : g.idAt m = g.idAt n) : m = n := by
  have hm' := g.idAt_of_lt hm
  rw [h, ← g.idAt_of_lt hn] at hm'
  have hm : m < g.ids.length := by rw [length_ids]; exact hm
  exact (List.getElem?_inj hm g.distinct).1 hm'

theorem index?_eq_some_iff (id : BuilderId) (n : Nat) :
    g.index? id = some n ↔ n < g.size ∧ g.idAt n = id := by
  unfold index?
  rw [List.idxOf?_eq_some_iff]
  constructor
  · rintro ⟨hn, rfl, -⟩
    have hn' : n < g.size := by rw [← length_ids]; exact hn
    have := g.idAt_of_lt hn'
    rw [List.getElem?_eq_getElem hn] at this
    exact ⟨hn', (Option.some.inj this).symm⟩
  · rintro ⟨hn, rfl⟩
    have hn' : n < g.ids.length := by rw [length_ids]; exact hn
    have hget := g.idAt_of_lt hn
    rw [List.getElem?_eq_getElem hn'] at hget
    refine ⟨hn', Option.some.inj hget, ?_⟩
    intro j hj he
    have hj' : j < g.size := by omega
    have hgetj := g.idAt_of_lt hj'
    rw [List.getElem?_eq_getElem (by omega), he] at hgetj
    have := g.idAt_injective hj' hn (Option.some.inj hgetj).symm
    omega

theorem index?_idAt {n : Nat} (h : n < g.size) : g.index? (g.idAt n) = some n :=
  (g.index?_eq_some_iff _ n).2 ⟨h, rfl⟩

theorem contains_iff (id : BuilderId) : g.contains id = true ↔ ∃ n < g.size, g.idAt n = id := by
  unfold contains
  rw [List.contains_iff_mem, List.mem_iff_getElem?]
  constructor
  · intro ⟨n, hn⟩
    have hlt : n < g.size := by
      rw [← length_ids]
      exact (List.getElem?_eq_some_iff.1 hn).1
    rw [g.idAt_of_lt hlt] at hn
    exact ⟨n, hlt, Option.some.inj hn⟩
  · rintro ⟨n, hn, rfl⟩
    exact ⟨n, g.idAt_of_lt hn⟩

theorem lookup_eq_ok_iff (id : BuilderId) (n : Nat) :
    g.lookup id = .ok n ↔ n < g.size ∧ g.idAt n = id := by
  unfold lookup
  rw [← index?_eq_some_iff]
  cases g.index? id <;> simp

/-! ## Edges -/

theorem mem_indexEdges {edges : List (Nat × Nat)} (h : g.indexEdges = .ok edges) (m n : Nat) :
    (m, n) ∈ edges ↔ m < g.size ∧ n < g.size ∧ ⟨g.idAt m, g.idAt n⟩ ∈ g.edges := by
  unfold indexEdges at h
  rw [mem_of_mapM_ok h]
  constructor
  · intro ⟨e, he, hf⟩
    obtain ⟨m', hp, hf⟩ := ok_of_bind hf
    obtain ⟨n', hd, hf⟩ := ok_of_bind hf
    cases hf
    obtain ⟨hm, hm'⟩ := (g.lookup_eq_ok_iff _ _).1 hp
    obtain ⟨hn, hn'⟩ := (g.lookup_eq_ok_iff _ _).1 hd
    rw [hm', hn']
    exact ⟨hm, hn, (SortedSet.mem_toList _ _).1 he⟩
  · intro ⟨hm, hn, he⟩
    refine ⟨_, (SortedSet.mem_toList _ _).2 he, ?_⟩
    rw [(g.lookup_eq_ok_iff _ _).2 ⟨hm, rfl⟩, (g.lookup_eq_ok_iff _ _).2 ⟨hn, rfl⟩]
    rfl

theorem ends_of_indexEdges {edges : List (Nat × Nat)} (h : g.indexEdges = .ok edges) {e : Edge}
    (he : e ∈ g.edges) : g.contains e.prerequisite = true ∧ g.contains e.dependent = true := by
  unfold indexEdges at h
  obtain ⟨pair, hf⟩ := exists_ok_of_mapM h ((SortedSet.mem_toList _ _).2 he)
  obtain ⟨m, hp, hf⟩ := ok_of_bind hf
  obtain ⟨n, hd, -⟩ := ok_of_bind hf
  exact ⟨(g.contains_iff _).2 ⟨m, (g.lookup_eq_ok_iff _ _).1 hp⟩,
    (g.contains_iff _).2 ⟨n, (g.lookup_eq_ok_iff _ _).1 hd⟩⟩

end Graph

/-! ## Reaching -/

namespace Selection

theorem mem_sources {edges : List (Nat × Nat)} {m n : Nat} :
    m ∈ sources edges n ↔ (m, n) ∈ edges := by
  unfold sources
  rw [List.mem_filterMap]
  constructor
  · intro ⟨⟨a, b⟩, he, h⟩
    simp only [Option.ite_none_right_eq_some, Option.some.injEq] at h
    obtain ⟨rfl, rfl⟩ := h
    exact he
  · intro he
    exact ⟨(m, n), he, by simp⟩

/-- Everything that places need is among the places. -/
def Closed (edges : List (Nat × Nat)) (places : List Nat) : Prop :=
  ∀ n ∈ places, ∀ m ∈ sources edges n, m ∈ places

/-- The search in the course: places are reached once, and what a place needs is reached unless the
place is pending. -/
structure Reaching (edges : List (Nat × Nat)) (size fuel : Nat) (pending reached : List Nat) :
    Prop where
  nodup : reached.Nodup
  lt : ∀ n ∈ reached, n < size
  subset : ∀ n ∈ pending, n ∈ reached
  closed : ∀ n ∈ reached, n ∉ pending → ∀ m ∈ sources edges n, m ∈ reached
  enough : size + pending.length ≤ fuel + reached.length

theorem Reaching.start {edges : List (Nat × Nat)} {size r : Nat} (h : r < size) :
    Reaching edges size (size + 1) [r] [r] := by
  refine ⟨by simp, by simpa using h, by simp, by simp, ?_⟩
  simp only [List.length_singleton]
  omega

theorem Reaching.step {edges : List (Nat × Nat)} {size fuel n : Nat} {pending reached : List Nat}
    (hlt : ∀ e ∈ edges, e.1 < size) (h : Reaching edges size (fuel + 1) (n :: pending) reached) :
    let new := ((sources edges n).filter fun m => !reached.contains m).eraseDups
    Reaching edges size fuel (new ++ pending) (new ++ reached) := by
  intro new
  have hnew (m : Nat) : m ∈ new ↔ m ∈ sources edges n ∧ m ∉ reached := by
    simp [new, List.mem_eraseDups]
  refine ⟨?_, ?_, ?_, ?_, ?_⟩
  · rw [List.nodup_append]
    refine ⟨nodup_eraseDups _, h.nodup, ?_⟩
    intro a ha b hb hab
    exact ((hnew a).1 ha).2 (hab ▸ hb)
  · intro m hm
    rcases List.mem_append.1 hm with hm | hm
    · exact hlt _ (mem_sources.1 ((hnew m).1 hm).1)
    · exact h.lt m hm
  · intro m hm
    rcases List.mem_append.1 hm with hm | hm
    · exact List.mem_append_left _ hm
    · exact List.mem_append_right _ (h.subset m (List.mem_cons_of_mem _ hm))
  · intro k hk hpending m hm
    rw [List.mem_append, not_or] at hpending
    have hk : k ∈ reached := (List.mem_append.1 hk).resolve_left hpending.1
    by_cases hkn : k = n
    · subst hkn
      by_cases hmr : m ∈ reached
      · exact List.mem_append_right _ hmr
      · exact List.mem_append_left _ ((hnew m).2 ⟨hm, hmr⟩)
    · have hk' : k ∉ n :: pending := by
        rw [List.mem_cons, not_or]
        exact ⟨hkn, hpending.2⟩
      exact List.mem_append_right _ (h.closed k hk hk' m hm)
  · have := h.enough
    simp only [List.length_append, List.length_cons] at this ⊢
    omega

/-- There is fuel enough to look at every place. -/
theorem closed_reach {edges : List (Nat × Nat)} {size : Nat} (hlt : ∀ e ∈ edges, e.1 < size) :
    ∀ {fuel : Nat} {pending reached : List Nat}, Reaching edges size fuel pending reached →
      Closed edges (reach edges fuel pending reached) ∧
        ∀ n ∈ reached, n ∈ reach edges fuel pending reached
  | 0, pending, reached, h => by
    have hsub : reached ⊆ List.range size := fun n hn => List.mem_range.2 (h.lt n hn)
    have hlen := h.nodup.length_le_of_subset hsub
    have hfuel := h.enough
    rw [List.length_range] at hlen
    have hempty : pending = [] := List.length_eq_zero_iff.1 (by omega)
    subst hempty
    exact ⟨fun n hn => h.closed n hn (List.not_mem_nil), fun n hn => hn⟩
  | fuel + 1, [], reached, h =>
    ⟨fun n hn => h.closed n hn (List.not_mem_nil), fun n hn => hn⟩
  | fuel + 1, n :: pending, reached, h => by
    obtain ⟨hclosed, hsub⟩ := closed_reach hlt (h.step hlt)
    exact ⟨hclosed, fun m hm => hsub m (List.mem_append_right _ hm)⟩

/-! ## Selections -/

/-- What a selection of a graph is: places of the graph, ascending, with all that they need, and the
edges between them. All edges of the graph join builders. -/
structure Sound {β : Type} (s : Selection) (g : Graph β) : Prop where
  ascending : s.places.Pairwise (· < ·)
  lt : ∀ n ∈ s.places, n < g.size
  closed : Closed s.edges s.places
  ends : ∀ e ∈ g.edges, g.contains e.prerequisite = true ∧ g.contains e.dependent = true
  mem_edges : ∀ n ∈ s.places, ∀ m,
    (m, n) ∈ s.edges ↔ m < g.size ∧ ⟨g.idAt m, g.idAt n⟩ ∈ g.edges

theorem sound_of_select {β : Type} {g : Graph β} {root : Option BuilderId} {s : Selection}
    (h : g.select root = .ok s) : s.Sound g := by
  obtain ⟨edges, he, h⟩ := ok_of_bind h
  have hedges := g.mem_indexEdges he
  have hends := fun e (h : e ∈ g.edges) => g.ends_of_indexEdges he h
  have hlt : ∀ e ∈ edges, e.1 < g.size := fun e h => ((hedges e.1 e.2).1 h).1
  cases root with
  | none =>
    cases h
    refine ⟨List.pairwise_lt_range, fun n hn => List.mem_range.1 hn, ?_, hends, ?_⟩
    · intro n _ m hm
      exact List.mem_range.2 (hlt _ (mem_sources.1 hm))
    · intro n hn m
      rw [hedges]
      exact and_congr_right fun _ => ⟨fun h => h.2, fun h => ⟨List.mem_range.1 hn, h⟩⟩
  | some root =>
    obtain ⟨r, hr, h⟩ := ok_of_bind h
    cases h
    obtain ⟨hr, -⟩ := (g.lookup_eq_ok_iff _ _).1 hr
    obtain ⟨hclosed, hsub⟩ := closed_reach hlt (.start hr)
    generalize reach edges (g.size + 1) [r] [r] = reached at hclosed hsub
    have hmem (n : Nat) : n ∈ (List.range g.size).filter reached.contains ↔
        n < g.size ∧ n ∈ reached := by
      rw [List.mem_filter, List.mem_range, List.contains_iff_mem]
    have hmem' (m n : Nat) : (m, n) ∈ (edges.filter fun e =>
        reached.contains e.1 && reached.contains e.2) ↔
        (m, n) ∈ edges ∧ m ∈ reached ∧ n ∈ reached := by
      rw [List.mem_filter, Bool.and_eq_true, List.contains_iff_mem, List.contains_iff_mem]
    refine ⟨List.pairwise_lt_range.filter _, ?_, ?_, hends, ?_⟩
    · intro n hn
      exact ((hmem n).1 hn).1
    · intro n _ m hm
      obtain ⟨hmn, hm, -⟩ := (hmem' m n).1 (mem_sources.1 hm)
      exact (hmem m).2 ⟨hlt _ hmn, hm⟩
    · intro n hn m
      obtain ⟨hn, hnr⟩ := (hmem n).1 hn
      rw [hmem', hedges]
      constructor
      · rintro ⟨⟨hm, -, he⟩, -⟩
        exact ⟨hm, he⟩
      · rintro ⟨hm, he⟩
        have hmn : (m, n) ∈ edges := (hedges m n).2 ⟨hm, hn, he⟩
        exact ⟨⟨hm, hn, he⟩, hclosed n hnr m (mem_sources.2 hmn), hnr⟩

end Selection

end Rebuild
