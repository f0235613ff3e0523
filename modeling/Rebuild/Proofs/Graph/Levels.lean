import Mathlib.Data.List.Chain
import Rebuild.Proofs.Graph.Cycle

/-!
# Plans are levels

A root selects itself and everything it needs, however far off. If an edge or the
root names somebody unknown, there is no plan; otherwise there is one exactly if
the selected builders need each other in no circle. Its waves are the levels of
what is selected: a builder is in the wave whose number is the length of the
longest chain of prerequisites that ends in it.

* `Graph.Selects`, `Graph.unknown?`, `Selection.select_cases`: what a root selects, and who is found
  to be unknown first.
* `Selection.peel_ok`, `Selection.acyclic_of_layers`: waves can be peeled off exactly where there is
  no cycle.
* `Selection.tight_of_peel`, `Graph.Chain`: every wave starts as early as it can.
* `Plan.Levels`, `plan_levels`: what planning comes to.
-/
namespace Rebuild

/-! ## What is selected -/

namespace Graph

variable {β : Type} (g : Graph β)

/-- One builder is a direct prerequisite of another. -/
def Joins (a b : BuilderId) : Prop := (⟨a, b⟩ : Edge) ∈ g.edges

/-- A run of a root concerns a builder: the root itself, or somebody it needs. Without a root it
concerns everybody. -/
def Selects (root : Option BuilderId) (id : BuilderId) : Prop :=
  g.contains id = true ∧ ∀ r ∈ root, Relation.ReflTransGen g.Joins id r

/-- A way of at least one edge leads from the builder back to itself, all of it among what is
selected. -/
def OnCycle (root : Option BuilderId) (id : BuilderId) : Prop :=
  Relation.TransGen (fun a b => g.Selects root a ∧ g.Selects root b ∧ g.Joins a b) id id

/-- The edges between selected builders close a circle. -/
def HasCycle (root : Option BuilderId) : Prop := ∃ id, g.OnCycle root id

/-- Everybody named by the edges, in the order of the edge set, a prerequisite before its
dependent. -/
def ends : List BuilderId := g.edges.toList.flatMap fun e => [e.prerequisite, e.dependent]

/-- The first end of an edge, or else the root, that is nobody's identity. -/
def unknown? (root : Option BuilderId) : Option BuilderId :=
  (g.ends ++ root.toList).find? fun id => !g.contains id

theorem lookup_of_contains {id : BuilderId} (h : g.contains id = true) :
    ∃ n, g.lookup id = .ok n ∧ n < g.size ∧ g.idAt n = id := by
  obtain ⟨n, hn, rfl⟩ := (g.contains_iff id).1 h
  exact ⟨n, (g.lookup_eq_ok_iff _ n).2 ⟨hn, rfl⟩, hn, rfl⟩

theorem lookup_of_not_contains {id : BuilderId} (h : g.contains id = false) :
    g.lookup id = .error (.unknown id) := by
  unfold lookup
  cases hindex : g.index? id with
  | none => rfl
  | some n =>
    obtain ⟨hn, hid⟩ := (g.index?_eq_some_iff id n).1 hindex
    rw [(g.contains_iff id).2 ⟨n, hn, hid⟩] at h
    cases h

/-- Looking up the ends of edges comes upon the first that is unknown, if there is one. -/
theorem mapM_lookup : ∀ l : List Edge,
    match (l.flatMap fun e => [e.prerequisite, e.dependent]).find? (fun id => !g.contains id) with
    | some id => (l.mapM fun e => do return (← g.lookup e.prerequisite, ← g.lookup e.dependent) :
        Except GraphError (List (Nat × Nat))) = .error (.unknown id)
    | none => ∃ edges, (l.mapM fun e => do
        return (← g.lookup e.prerequisite, ← g.lookup e.dependent) :
        Except GraphError (List (Nat × Nat))) = .ok edges
  | [] => ⟨[], rfl⟩
  | e :: l => by
    have ih := mapM_lookup l
    rw [List.flatMap_cons, List.cons_append, List.singleton_append, List.find?_cons,
      List.find?_cons, List.mapM_cons]
    cases hp : g.contains e.prerequisite with
    | false =>
      rw [g.lookup_of_not_contains hp]
      rfl
    | true =>
      obtain ⟨m, hm, -⟩ := g.lookup_of_contains hp
      cases hd : g.contains e.dependent with
      | false =>
        rw [hm, g.lookup_of_not_contains hd]
        rfl
      | true =>
        obtain ⟨n, hn, -⟩ := g.lookup_of_contains hd
        rw [hm, hn]
        simp only [Bool.not_true]
        generalize (l.flatMap fun e => [e.prerequisite, e.dependent]).find?
          (fun id => !g.contains id) = found at ih ⊢
        cases found with
        | some id =>
          simp only at ih ⊢
          rw [ih]
          rfl
        | none =>
          obtain ⟨edges, hedges⟩ := ih
          exact ⟨_, by rw [hedges]; rfl⟩

end Graph

namespace Selection

/-- What a search reaches needs not be looked for where nothing leads to it. -/
theorem leads_of_mem_reach {edges : List (Nat × Nat)} :
    ∀ {fuel : Nat} {pending reached : List Nat}, (∀ n ∈ pending, n ∈ reached) →
      ∀ n ∈ reach edges fuel pending reached,
        ∃ m ∈ reached, Relation.ReflTransGen (Leads edges) n m
  | 0, _, _, _, n, hn => ⟨n, hn, .refl⟩
  | _ + 1, [], _, _, n, hn => ⟨n, hn, .refl⟩
  | fuel + 1, first :: pending, reached, hsub, n, hn => by
    rw [reach] at hn
    have hnew (m : Nat) : m ∈ ((sources edges first).filter
        fun m => !reached.contains m).eraseDups → (m, first) ∈ edges := fun hm => by
      rw [List.mem_eraseDups] at hm
      exact mem_sources.1 (List.mem_filter.1 hm).1
    generalize ((sources edges first).filter fun m => !reached.contains m).eraseDups = new
      at hn hnew
    have hsub' : ∀ m ∈ new ++ pending, m ∈ new ++ reached := fun m hm =>
      (List.mem_append.1 hm).elim (List.mem_append_left _)
        fun hm => List.mem_append_right _ (hsub m (List.mem_cons_of_mem _ hm))
    obtain ⟨m, hm, hleads⟩ := leads_of_mem_reach hsub' n hn
    rcases List.mem_append.1 hm with hm | hm
    · exact ⟨first, hsub first List.mem_cons_self, hleads.tail (hnew m hm)⟩
    · exact ⟨m, hm, hleads⟩

theorem Closed.mem_of_leads {edges : List (Nat × Nat)} {places : List Nat} {m n : Nat}
    (h : Closed edges places) (hleads : Relation.ReflTransGen (Leads edges) m n)
    (hn : n ∈ places) : m ∈ places := by
  induction hleads using Relation.ReflTransGen.head_induction_on with
  | refl => exact hn
  | head hedge _ ih => exact h _ ih _ (mem_sources.2 hedge)

/-- What a selection is, said of builders. -/
structure Exact {β : Type} (s : Selection) (g : Graph β) (root : Option BuilderId) : Prop where
  mem_places : ∀ n, n ∈ s.places ↔ n < g.size ∧ g.Selects root (g.idAt n)
  mem_edges : ∀ m n, (m, n) ∈ s.edges ↔
    m ∈ s.places ∧ n ∈ s.places ∧ g.Joins (g.idAt m) (g.idAt n)

section Exact

variable {β : Type} {g : Graph β} {root : Option BuilderId} {edges : List (Nat × Nat)}

theorem Joins.of_leads (h : g.indexEdges = .ok edges) {m n : Nat}
    (hleads : Relation.ReflTransGen (Leads edges) m n) :
    Relation.ReflTransGen g.Joins (g.idAt m) (g.idAt n) :=
  hleads.lift g.idAt fun _ _ he => ((g.mem_indexEdges h _ _).1 he).2.2

theorem leads_of_joins (h : g.indexEdges = .ok edges) {a b : BuilderId}
    (hjoins : Relation.ReflTransGen g.Joins a b) :
    ∀ {m n : Nat}, m < g.size → n < g.size → g.idAt m = a → g.idAt n = b →
      Relation.ReflTransGen (Leads edges) m n := by
  induction hjoins with
  | refl =>
    intro m n hm hn hma hna
    rw [g.idAt_injective hm hn (hma.trans hna.symm)]
  | tail _ he ih =>
    rintro m n hm hn rfl rfl
    obtain ⟨k, hk, rfl⟩ := (g.contains_iff _).1 (g.ends_of_indexEdges h he).1
    exact (ih hm hk rfl rfl).tail ((g.mem_indexEdges h k n).2 ⟨hk, hn, he⟩)

end Exact

theorem select_cases {β : Type} (g : Graph β) (root : Option BuilderId) :
    match g.unknown? root with
    | some id => g.select root = .error (.unknown id)
    | none => ∃ s, g.select root = .ok s ∧ s.Exact g root := by
  have hindex := g.mapM_lookup g.edges.toList
  unfold Graph.unknown? Graph.ends
  rw [List.find?_append]
  unfold Graph.select
  simp only [bind, Except.bind]
  have hdef : g.indexEdges = g.edges.toList.mapM fun e => do
      return (← g.lookup e.prerequisite, ← g.lookup e.dependent) := rfl
  rw [← hdef] at hindex
  generalize (g.edges.toList.flatMap fun e => [e.prerequisite, e.dependent]).find?
    (fun id => !g.contains id) = found at hindex ⊢
  cases found with
  | some id =>
    simp only at hindex
    rw [hindex]
    rfl
  | none =>
    obtain ⟨edges, he⟩ := hindex
    simp only [he, Option.none_or]
    have hedges := g.mem_indexEdges he
    cases root with
    | none =>
      refine ⟨_, rfl, ?_, ?_⟩
      · intro n
        rw [List.mem_range]
        exact ⟨fun h => ⟨h, (g.contains_iff _).2 ⟨n, h, rfl⟩, nofun⟩, fun h => h.1⟩
      · intro m n
        rw [hedges, List.mem_range, List.mem_range]
        exact .rfl
    | some root =>
      cases hroot : g.contains root with
      | false =>
        simp only [Option.toList_some, List.find?_cons, hroot, Bool.not_false,
          g.lookup_of_not_contains hroot]
      | true =>
        obtain ⟨r, hr, hlt, rfl⟩ := g.lookup_of_contains hroot
        simp only [Option.toList_some, List.find?_cons, hroot, Bool.not_true, List.find?_nil, hr]
        have hsize : ∀ e ∈ edges, e.1 < g.size := fun e h => ((hedges e.1 e.2).1 h).1
        obtain ⟨hclosed, hsub⟩ := closed_reach hsize (.start hlt)
        have hleads := @leads_of_mem_reach edges (g.size + 1) [r] [r] fun _ hn => hn
        generalize reach edges (g.size + 1) [r] [r] = reached at hclosed hsub hleads
        have hmem (n : Nat) (hn : n < g.size) :
            n ∈ reached ↔ g.Selects (some (g.idAt r)) (g.idAt n) := by
          constructor
          · intro hreached
            obtain ⟨m, hm, hmr⟩ := hleads n hreached
            cases List.mem_singleton.1 hm
            refine ⟨(g.contains_iff _).2 ⟨n, hn, rfl⟩, fun r' hr' => ?_⟩
            cases hr'
            exact Joins.of_leads he hmr
          · intro ⟨_, hselects⟩
            exact hclosed.mem_of_leads (leads_of_joins he (hselects _ rfl) hn hlt rfl rfl)
              (hsub r (List.mem_singleton_self r))
        have hplaces (n : Nat) : n ∈ (List.range g.size).filter reached.contains ↔
            n < g.size ∧ n ∈ reached := by
          rw [List.mem_filter, List.mem_range, List.contains_iff_mem]
        refine ⟨_, rfl, ?_, ?_⟩
        · intro n
          rw [hplaces]
          exact and_congr_right (hmem n)
        · intro m n
          dsimp only
          rw [List.mem_filter, hplaces, hplaces, Bool.and_eq_true, List.contains_iff_mem,
            List.contains_iff_mem, hedges]
          exact ⟨fun ⟨⟨hm, hn, hjoins⟩, hmr, hnr⟩ => ⟨⟨hm, hmr⟩, ⟨hn, hnr⟩, hjoins⟩,
            fun ⟨⟨hm, hmr⟩, ⟨hn, hnr⟩, hjoins⟩ => ⟨⟨hm, hn, hjoins⟩, hmr, hnr⟩⟩

/-! ### Cycles -/

section Cycles

variable {β : Type} {s : Selection} {g : Graph β} {root : Option BuilderId}

theorem Exact.covers (h : s.Exact g root) : Covers s.places s.edges := fun e he =>
  ⟨((h.mem_edges e.1 e.2).1 he).1, ((h.mem_edges e.1 e.2).1 he).2.1⟩

theorem Exact.lift (h : s.Exact g root) {m n : Nat} (hway : Relation.TransGen (Leads s.edges) m n) :
    Relation.TransGen (fun a b => g.Selects root a ∧ g.Selects root b ∧ g.Joins a b) (g.idAt m)
      (g.idAt n) := by
  refine hway.lift g.idAt ?_
  intro a b hab
  obtain ⟨ha, hb, hjoins⟩ := (h.mem_edges a b).1 hab
  exact ⟨((h.mem_places a).1 ha).2, ((h.mem_places b).1 hb).2, hjoins⟩

theorem Exact.acyclic_iff (h : s.Exact g root) : Acyclic s.edges ↔ ¬g.HasCycle root := by
  constructor
  · intro hacyclic ⟨id, hcycle⟩
    have hplace {id : BuilderId} (hid : g.Selects root id) :
        ∃ n, (g.index? id).getD 0 = n ∧ n ∈ s.places ∧ g.idAt n = id := by
      obtain ⟨n, hn, rfl⟩ := (g.contains_iff id).1 hid.1
      exact ⟨n, by rw [g.index?_idAt hn]; rfl, (h.mem_places n).2 ⟨hn, hid⟩, rfl⟩
    refine hacyclic _ (hcycle.lift (fun id => (g.index? id).getD 0) ?_)
    intro a b ⟨ha, hb, hjoins⟩
    obtain ⟨m, hm, hmplace, rfl⟩ := hplace ha
    obtain ⟨n, hn, hnplace, rfl⟩ := hplace hb
    show Leads s.edges ((g.index? (g.idAt m)).getD 0) ((g.index? (g.idAt n)).getD 0)
    rw [hm, hn]
    exact (h.mem_edges m n).2 ⟨hmplace, hnplace, hjoins⟩
  · exact fun hnone n hcycle => hnone ⟨g.idAt n, h.lift hcycle⟩

end Cycles

/-! ## Peeling -/

variable {edges : List (Nat × Nat)}

theorem Settling.exists_first : ∀ {order keys : List Nat}, Settling edges order →
    (∀ n ∈ keys, n ∈ order) → keys ≠ [] → ∃ n ∈ keys, ∀ m ∈ sources edges n, m ∉ keys
  | [], keys, _, hsub, hne => by
    obtain ⟨n, hn⟩ := List.exists_mem_of_ne_nil keys hne
    exact (List.not_mem_nil (hsub n hn)).elim
  | first :: rest, keys, h, hsub, hne => by
    by_cases hfirst : first ∈ keys
    · exact ⟨first, hfirst, fun m hm hmem =>
        h.not_mem_of_leads (mem_sources.1 hm) (hsub m hmem)⟩
    · refine h.2.2.exists_first (fun n hn => ?_) hne
      exact (List.mem_cons.1 (hsub n hn)).resolve_left fun e => hfirst (e ▸ hn)

section Peeling

variable {done order : List Nat} {waiting : List (Nat × Nat)}

/-- In a settling order some of the waiting places wait for nothing. -/
theorem Waiting.exists_ready (hw : Waiting edges done waiting) (horder : Settling edges order)
    (hsub : ∀ n ∈ waiting.map Prod.fst, n ∈ order)
    (hsources : ∀ n ∈ waiting.map Prod.fst, ∀ m ∈ sources edges n,
      m ∈ done ∨ m ∈ waiting.map Prod.fst)
    (hne : waiting.map Prod.fst ≠ []) : ready waiting ≠ [] := by
  obtain ⟨n, hn, hnone⟩ := horder.exists_first hsub hne
  have hall : waitsFor edges done n = [] := by
    refine List.filter_eq_nil_iff.2 fun m hm => ?_
    simpa using (hsources n hn m hm).resolve_right (hnone m hm)
  obtain ⟨⟨n, k⟩, hmem, rfl⟩ := List.mem_map.1 hn
  have hzero := hw.counter _ hmem
  rw [hall] at hzero
  cases hzero
  exact List.ne_nil_of_mem (mem_ready.2 hmem)

theorem sources_left (hsources : ∀ n ∈ waiting.map Prod.fst, ∀ m ∈ sources edges n,
    m ∈ done ∨ m ∈ waiting.map Prod.fst) :
    ∀ n ∈ (left edges waiting).map Prod.fst, ∀ m ∈ sources edges n,
      m ∈ ready waiting ++ done ∨ m ∈ (left edges waiting).map Prod.fst := by
  intro n hn m hm
  have hmem := (perm_ready_left edges waiting).mem_iff (a := n)
  rcases hsources n (hmem.1 (List.mem_append_right _ hn)) m hm with hdone | hwaits
  · exact .inl (List.mem_append_right _ hdone)
  · rcases List.mem_append.1 ((perm_ready_left edges waiting).mem_iff.2 hwaits) with h | h
    · exact .inl (List.mem_append_left _ h)
    · exact .inr h

theorem length_left_lt (h : ready waiting ≠ []) : (left edges waiting).length < waiting.length := by
  have hlength := (perm_ready_left edges waiting).length_eq
  rw [List.length_append, List.length_map, List.length_map] at hlength
  have := List.length_pos_iff.2 h
  omega

end Peeling

/-- Where there is no cycle, some place waits for nothing as long as places wait, so that all are
peeled off. -/
theorem peel_ok {order : List Nat} (horder : Settling edges order) :
    ∀ {fuel : Nat} {waiting : List (Nat × Nat)} {done : List Nat}, Waiting edges done waiting →
      (∀ n ∈ waiting.map Prod.fst, n ∈ order) →
      (∀ n ∈ waiting.map Prod.fst, ∀ m ∈ sources edges n, m ∈ done ∨ m ∈ waiting.map Prod.fst) →
      waiting.length ≤ fuel → ∃ waves, peel edges fuel waiting = .ok waves
  | 0, [], _, _, _, _, _ => ⟨[], rfl⟩
  | fuel + 1, [], _, _, _, _, _ => ⟨[], rfl⟩
  | fuel + 1, first :: rest, done, hw, hsub, hsources, hfuel => by
    rw [peel_cons]
    have hready := hw.exists_ready horder hsub hsources (List.cons_ne_nil _ _)
    have hlength : (left edges (first :: rest)).length < _ := length_left_lt hready
    obtain ⟨waves, hwaves⟩ := @peel_ok order horder fuel _ _ hw.step
      (fun n hn => hsub n ((perm_ready_left edges _).mem_iff.1 (List.mem_append_right _ hn)))
      (sources_left hsources) (by show (left edges _).length ≤ _; omega)
    refine ⟨ready (first :: rest) :: waves, ?_⟩
    rw [if_neg (by simpa using hready)]
    exact congrArg (Except.map _) hwaves

/-- Every wave but the first holds places that need somebody in the wave before. -/
def Tight (needs : Nat → List Nat) (waves : List (List Nat)) : Prop :=
  List.IsChain (fun wave next => ∀ n ∈ next, ∃ m ∈ needs n, m ∈ wave) waves

/-- What was left waits for somebody who was ready. -/
theorem exists_source_of_left {waiting : List (Nat × Nat)} {n : Nat}
    (hn : n ∈ ready (left edges waiting)) :
    ∃ m ∈ sources edges n, m ∈ ready waiting := by
  obtain ⟨v, hmem, heq⟩ := List.mem_map.1 (mem_ready.1 hn)
  obtain ⟨-, hne⟩ := List.mem_filter.1 hmem
  simp only [Prod.mk.injEq, bne_iff_ne] at heq hne
  obtain ⟨rfl, hzero⟩ := heq
  obtain ⟨m, hm⟩ := List.exists_mem_of_length_pos
    (l := (sources edges v.1).filter (ready waiting).contains) (by omega)
  obtain ⟨hm, hready⟩ := List.mem_filter.1 hm
  exact ⟨m, hm, List.contains_iff_mem.1 hready⟩

theorem tight_of_peel : ∀ {fuel : Nat} {waiting : List (Nat × Nat)} {done : List Nat}
    {waves : List (List Nat)}, Waiting edges done waiting → peel edges fuel waiting = .ok waves →
    Tight (sources edges) waves ∧ (∀ wave ∈ waves, wave ≠ []) ∧
      ∀ wave ∈ waves.head?, wave = ready waiting
  | fuel, [], done, waves, _, h => by
    cases fuel <;> cases h <;> exact ⟨List.IsChain.nil, nofun, nofun⟩
  | 0, w :: rest, done, waves, _, h => by cases h
  | fuel + 1, first :: rest, done, waves, hw, h => by
    rw [peel_cons] at h
    generalize first :: rest = waiting at h hw
    split at h
    next => cases h
    next hne =>
      cases hpeel : peel edges fuel (left edges waiting) with
      | error n => rw [hpeel] at h; cases h
      | ok others =>
        rw [hpeel] at h
        cases h
        obtain ⟨htight, hothers, hhead⟩ := tight_of_peel hw.step hpeel
        refine ⟨?_, ?_, ?_⟩
        · refine List.isChain_cons.2 ⟨fun wave hwave n hn => ?_, htight⟩
          rw [hhead wave hwave] at hn
          exact exists_source_of_left hn
        · refine List.forall_mem_cons.2 ⟨?_, hothers⟩
          simpa using hne
        · intro wave hwave
          cases hwave
          rfl

theorem acyclic_of_layers {waves : List (List Nat)} (h : Layers (sources edges) [] waves)
    (hcovers : Covers waves.flatten edges) : Acyclic edges := by
  -- going back along edges from a place in a wave comes to an end
  have hacc : ∀ n ∈ waves.flatten, Acc (Leads edges) n :=
    h.induction (fun _ hn => (List.not_mem_nil hn).elim)
      fun n _ ih => .intro n fun m hm => ih m (mem_sources.2 hm)
  intro n hcycle
  obtain ⟨m, hm, -⟩ := Relation.TransGen.head'_iff.1 hcycle
  have hn := (hacc n (hcovers _ hm).1).transGen
  clear hm
  induction hn with
  | intro n _ ih => exact ih n hcycle hcycle

end Selection

/-! ## Levels -/

/-- Builders, each a direct prerequisite of the next, so many steps long, with the given one at the
end. -/
inductive Graph.Chain {β : Type} (g : Graph β) : Nat → BuilderId → Prop
  | start (id : BuilderId) : g.Chain 0 id
  | step {k : Nat} {a b : BuilderId} : g.Chain k a → g.Joins a b → g.Chain (k + 1) b

theorem Layers.exists_earlier {needs : Nat → List Nat} : ∀ {waves : List (List Nat)}
    {earlier : List Nat}, Layers needs earlier waves → ∀ {i : Nat} {wave : List Nat},
      waves[i]? = some wave → ∀ n ∈ wave, ∀ m ∈ needs n,
        m ∈ earlier ∨ ∃ j < i, ∃ before, waves[j]? = some before ∧ m ∈ before
  | first :: rest, earlier, ⟨_, hwave, hrest⟩, 0, wave, hi, n, hn, m, hm => by
    cases hi
    exact .inl ((hwave n hn).2 m hm)
  | first :: rest, earlier, ⟨_, hwave, hrest⟩, i + 1, wave, hi, n, hn, m, hm => by
    rw [List.getElem?_cons_succ] at hi
    rcases hrest.exists_earlier hi n hn m hm with h | ⟨j, hj, before, hbefore, hmem⟩
    · rcases List.mem_append.1 h with h | h
      · exact .inr ⟨0, by omega, first, rfl, h⟩
      · exact .inl h
    · exact .inr ⟨j + 1, by omega, before, by rwa [List.getElem?_cons_succ], hmem⟩

/-- A plan of the graph, or of the part that a root needs: its waves are the levels of the selected
builders, and it names the direct prerequisites of each. -/
structure Plan.Levels {β : Type} (plan : Plan) (g : Graph β) (root : Option BuilderId) : Prop where
  /-- Every selected builder is in one wave, and nobody else is. -/
  mem : ∀ n, n ∈ plan.waves.flatten ↔ n < g.size ∧ g.Selects root (g.idAt n)
  nodup : plan.waves.flatten.Nodup
  nonempty : ∀ wave ∈ plan.waves, wave ≠ []
  ascending : ∀ wave ∈ plan.waves, wave.Pairwise (· < ·)
  /-- The number of a wave is the length of the longest chains that end in it. -/
  level : ∀ (i : Nat) (wave : List Nat), plan.waves[i]? = some wave → ∀ n ∈ wave,
    g.Chain i (g.idAt n) ∧ ∀ k, g.Chain k (g.idAt n) → k ≤ i
  /-- So whoever is needed is in an earlier wave. -/
  earlier : ∀ (i : Nat) (wave : List Nat), plan.waves[i]? = some wave →
    ∀ n ∈ wave, ∀ id, g.Joins id (g.idAt n) → ∃ j < i, ∃ before : List Nat,
      plan.waves[j]? = some before ∧ ∃ m ∈ before, g.idAt m = id
  keys : (plan.prerequisites.map Prod.fst).Perm plan.waves.flatten
  prerequisites : ∀ n l, (n, l) ∈ plan.prerequisites → l.Pairwise (· < ·) ∧
    ∀ m, m ∈ l ↔ m < g.size ∧ g.Joins (g.idAt m) (g.idAt n)

section Levels

variable {β : Type} {g : Graph β} {needs : Nat → List Nat} {waves : List (List Nat)}

/-- A chain leads back from every wave to the first. -/
theorem Graph.chain_of_tight (htight : Selection.Tight needs waves)
    (hneeds : ∀ n ∈ waves.flatten, ∀ m ∈ needs n, g.Joins (g.idAt m) (g.idAt n)) :
    ∀ {i : Nat} {wave : List Nat}, waves[i]? = some wave → ∀ n ∈ wave, g.Chain i (g.idAt n)
  | 0, _, _, n, _ => .start _
  | i + 1, wave, hwave, n, hn => by
    obtain ⟨hi, rfl⟩ := List.getElem?_eq_some_iff.1 hwave
    obtain ⟨m, hm, hmem⟩ := htight.getElem i hi n hn
    have hchain := chain_of_tight htight hneeds (List.getElem?_eq_getElem (by omega)) m hmem
    exact hchain.step (hneeds n (List.mem_flatten.2 ⟨_, List.getElem_mem hi, hn⟩) m hm)

theorem Graph.Chain.le {k : Nat} {id : BuilderId} (hchain : g.Chain k id)
    (hlayers : Layers needs [] waves)
    (hneeds : ∀ n ∈ waves.flatten, ∀ id, g.Joins id (g.idAt n) → ∃ m ∈ needs n, g.idAt m = id) :
    ∀ {i : Nat} {wave : List Nat}, waves[i]? = some wave → ∀ n ∈ wave, g.idAt n = id → k ≤ i := by
  induction hchain with
  | start => exact fun _ _ _ _ => Nat.zero_le _
  | step _ hjoins ih =>
    rintro i wave hwave n hn rfl
    have hmem : n ∈ waves.flatten := List.mem_flatten.2 ⟨_, List.mem_of_getElem? hwave, hn⟩
    obtain ⟨m, hm, rfl⟩ := hneeds n hmem _ hjoins
    rcases hlayers.exists_earlier hwave n hn m hm with h | ⟨j, hj, before, hbefore, hmem⟩
    · exact (List.not_mem_nil h).elim
    · have := ih hbefore m hmem rfl
      omega

end Levels

section Plan

variable {β : Type} {g : Graph β} {root : Option BuilderId} {s : Selection}

namespace Selection

theorem plan_cases (hs : g.select root = .ok s) :
    match s.cycle?, peel s.edges s.places.length s.counters with
    | none, .ok waves => g.plan root = .ok (s.planOf waves)
    | _, _ => ∃ id, g.plan root = .error (.cycle id) := by
  unfold Graph.plan
  simp only [hs, bind, Except.bind]
  cases s.cycle? with
  | some n => exact ⟨_, rfl⟩
  | none =>
    simp only
    cases peel s.edges s.places.length s.counters with
    | error n => exact ⟨_, rfl⟩
    | ok waves => rfl

theorem plan_ne_unknown (hs : g.select root = .ok s) (id : BuilderId) :
    g.plan root ≠ .error (.unknown id) := by
  intro herror
  have hcases := plan_cases hs
  rw [herror] at hcases
  split at hcases
  · cases hcases
  · obtain ⟨id', hcycle⟩ := hcases
    cases hcycle

theorem Exact.peel_ok_of_cycle? (h : s.Exact g root) (hsound : s.Sound g)
    (hnone : s.cycle? = none) : ∃ waves, peel s.edges s.places.length s.counters = .ok waves := by
  obtain ⟨order, hsettling, hall⟩ := settling_of_cycle? h.covers hnone
  refine Selection.peel_ok hsettling hsound.waiting ?_ ?_ ?_
  · rwa [map_counters]
  · rw [map_counters]
    exact fun n _ m hm => .inr (h.covers _ (mem_sources.1 hm)).1
  · unfold counters
    rw [List.length_map]

theorem Exact.peel_ok (h : s.Exact g root) (hsound : s.Sound g) (hacyclic : Acyclic s.edges) :
    ∃ waves, peel s.edges s.places.length s.counters = .ok waves :=
  h.peel_ok_of_cycle? hsound (cycle?_eq_none hacyclic h.covers)

theorem Exact.levels (h : s.Exact g root) (hsound : s.Sound g) {waves : List (List Nat)}
    (hpeel : peel s.edges s.places.length s.counters = .ok waves) :
    (s.planOf waves).Levels g root := by
  obtain ⟨hlayers, hperm⟩ := layers_of_peel hsound.waiting hpeel
  obtain ⟨htight, hnonempty, -⟩ := tight_of_peel hsound.waiting hpeel
  rw [map_counters] at hperm
  have hmem (n : Nat) : n ∈ waves.flatten ↔ n ∈ s.places := hperm.mem_iff
  have hplace {i n : Nat} {wave : List Nat} (hwave : waves[i]? = some wave) (hn : n ∈ wave) :
      n ∈ waves.flatten := List.mem_flatten.2 ⟨wave, List.mem_of_getElem? hwave, hn⟩
  have hneeds : ∀ n ∈ waves.flatten, ∀ id, g.Joins id (g.idAt n) →
      ∃ m ∈ sources s.edges n, g.idAt m = id := by
    intro n hn id hjoins
    obtain ⟨m, hm, rfl⟩ := (g.contains_iff id).1 (hsound.ends _ hjoins).1
    exact ⟨m, mem_sources.2 ((hsound.mem_edges n ((hmem n).1 hn) m).2 ⟨hm, hjoins⟩), rfl⟩
  refine ⟨?_, hlayers.nodup_flatten.1, hnonempty, hlayers.ascending, ?_, ?_, ?_, ?_⟩
  · exact fun n => (hmem n).trans (h.mem_places n)
  · intro i wave hwave n hn
    refine ⟨Graph.chain_of_tight htight ?_ hwave n hn, fun k hchain => ?_⟩
    · exact fun n hn m hm => ((h.mem_edges m n).1 (mem_sources.1 hm)).2.2
    · exact hchain.le hlayers hneeds hwave n hn rfl
  · intro i wave hwave n hn id hjoins
    obtain ⟨m, hm, rfl⟩ := hneeds n (hplace hwave hn) id hjoins
    rcases hlayers.exists_earlier hwave n hn m hm with hnil | ⟨j, hj, before, hbefore, hmem⟩
    · exact (List.not_mem_nil hnil).elim
    · exact ⟨j, hj, before, hbefore, m, hmem, rfl⟩
  · show ((s.places.map _).map Prod.fst).Perm _
    rw [List.map_map]
    exact (List.map_id s.places).symm ▸ hperm.symm
  · intro n l hl
    obtain ⟨n, hn, heq⟩ := List.mem_map.1 hl
    cases heq
    refine ⟨hsound.ascending.filter _, fun m => ?_⟩
    rw [List.mem_filter, List.contains_iff_mem, mem_sources, hsound.mem_edges n hn]
    refine ⟨fun hm => hm.2, fun hm => ⟨?_, hm⟩⟩
    exact hsound.closed n hn m (mem_sources.2 ((hsound.mem_edges n hn m).2 hm))

end Selection

end Plan

/-- A graph is planned in levels, unless an edge or the root names somebody unknown, or the selected
builders need each other in a circle. -/
theorem plan_levels {β : Type} (g : Graph β) (root : Option BuilderId) :
    match g.unknown? root with
    | some id => g.plan root = .error (.unknown id)
    | none => ((∃ id, g.plan root = .error (.cycle id)) ↔ g.HasCycle root) ∧
        (¬g.HasCycle root → ∃ plan, g.plan root = .ok plan ∧ plan.Levels g root) := by
  have hselect := Selection.select_cases g root
  cases hunknown : g.unknown? root with
  | some id =>
    rw [hunknown] at hselect
    unfold Graph.plan
    rw [hselect]
    rfl
  | none =>
    rw [hunknown] at hselect
    obtain ⟨s, hs, hexact⟩ := hselect
    have hsound := Selection.sound_of_select hs
    have hcases := Selection.plan_cases hs
    have hok : ¬g.HasCycle root → ∃ plan, g.plan root = .ok plan ∧ plan.Levels g root := by
      intro hnone
      have hacyclic := hexact.acyclic_iff.2 hnone
      obtain ⟨waves, hwaves⟩ := hexact.peel_ok hsound hacyclic
      rw [Selection.cycle?_eq_none hacyclic hexact.covers, hwaves] at hcases
      exact ⟨_, hcases, hexact.levels hsound hwaves⟩
    refine ⟨⟨?_, ?_⟩, hok⟩
    · rintro ⟨id, herror⟩
      by_contra hnone
      obtain ⟨plan, hplan, -⟩ := hok hnone
      rw [hplan] at herror
      cases herror
    · intro hcycle
      split at hcases
      next waves _ hwaves =>
        obtain ⟨hlayers, hperm⟩ := Selection.layers_of_peel hsound.waiting hwaves
        rw [Selection.map_counters] at hperm
        refine absurd hcycle (hexact.acyclic_iff.1 (Selection.acyclic_of_layers hlayers ?_))
        exact fun e he => (hexact.covers e he).imp hperm.mem_iff.2 hperm.mem_iff.2
      next => exact hcases

end Rebuild
