import Rebuild.Proofs.Graph.Search

/-!
# Searching for a cycle

The second search goes through the places as they were finished, the latest first, and
against the edges. Where it comes to a place that it has not seen, that one was finished
earlier, so a way leads back to it and it is on a cycle. Where it comes to none, the
order in which the places were finished settles that there is no cycle.

* `Settling`: an order in which what a place leads to comes after it.
* `Returning.of_backtrack?`, `settling_of_backtrack?`: what the second search finds, and
  what it means that it finds nothing.
* `of_cycle?`: a place that is found lies on a cycle.
* `settling_of_cycle?`: where none is found, the places can be put in such an order.
-/
namespace Rebuild.Selection

/-! ## Orders of finishing -/

/-- No place comes twice, and what a place leads to comes after it. -/
def Settling (edges : List (Nat × Nat)) : List Nat → Prop
  | [] => True
  | n :: rest => n ∉ rest ∧ (∀ m ∈ targets edges n, m ∈ rest) ∧ Settling edges rest

variable {edges : List (Nat × Nat)}

theorem Settling.mem_of_leads : ∀ {order : List Nat}, Settling edges order → ∀ {m n : Nat},
    m ∈ order → (m, n) ∈ edges → n ∈ order
  | first :: rest, ⟨_, hfirst, hrest⟩, m, n, hm, he => by
    rcases List.mem_cons.1 hm with rfl | hm
    · exact List.mem_cons_of_mem _ (hfirst n (mem_targets.2 he))
    · exact List.mem_cons_of_mem _ (hrest.mem_of_leads hm he)

theorem Settling.not_mem_of_leads {n m : Nat} {rest : List Nat} (h : Settling edges (n :: rest))
    (he : (m, n) ∈ edges) : m ∉ n :: rest := by
  obtain ⟨hn, hfirst, hrest⟩ := h
  intro hm
  rcases List.mem_cons.1 hm with rfl | hm
  · exact hn (hfirst _ (mem_targets.2 he))
  · exact hn (hrest.mem_of_leads hm he)

theorem Settling.mem_of_way {order : List Nat} (h : Settling edges order) {m n : Nat}
    (hm : m ∈ order) (hway : Relation.ReflTransGen (Leads edges) m n) : n ∈ order := by
  induction hway with
  | refl => exact hm
  | tail _ hedge ih => exact h.mem_of_leads ih hedge

theorem Settling.not_transGen : ∀ {order : List Nat}, Settling edges order → ∀ {n : Nat},
    n ∈ order → ¬Relation.TransGen (Leads edges) n n
  | first :: rest, ⟨hfirst, htargets, hrest⟩, n, hn, hcycle => by
    rcases List.mem_cons.1 hn with rfl | hn
    · obtain ⟨m, hedge, hway⟩ := Relation.TransGen.head'_iff.1 hcycle
      exact hfirst (hrest.mem_of_way (htargets m (mem_targets.2 hedge)) hway)
    · exact hrest.not_transGen hn hcycle

/-! ## The second search -/

/-- What leads to the places that are left was seen, or it is left as well, also when the first of
them is seen. -/
theorem sources_of_seen {n : Nat} {rest seen seen' : List Nat}
    (hsources : ∀ k ∈ n :: rest, ∀ m ∈ sources edges k, m ∈ seen ∨ m ∈ n :: rest)
    (hseen : ∀ m, m ∈ seen ∨ m = n → m ∈ seen') :
    ∀ k ∈ rest, ∀ m ∈ sources edges k, m ∈ seen' ∨ m ∈ rest := by
  intro k hk m hm
  rcases hsources k (List.mem_cons_of_mem _ hk) m hm with hmem | hmem
  · exact .inl (hseen m (.inl hmem))
  · exact (List.mem_cons.1 hmem).imp_left fun e => hseen m (.inr e)

/-- The place that the second search comes to lies on a cycle. -/
theorem Returning.of_backtrack? : ∀ {order seen : List Nat}, Returning edges order →
    (∀ n ∈ order, ∀ m ∈ sources edges n, m ∈ seen ∨ m ∈ order) → ∀ {k : Nat},
    backtrack? edges order seen = some k → Relation.TransGen (Leads edges) k k
  | n :: rest, seen, ⟨hback, hrest⟩, hsources, k, h => by
    rw [backtrack?] at h
    split at h
    next hseen =>
      refine hrest.of_backtrack? (sources_of_seen hsources fun m hm => ?_) h
      exact hm.elim id fun e => e ▸ List.contains_iff_mem.1 hseen
    next =>
      dsimp only at h
      split at h
      next hfilter =>
        cases h
        have hmem : k ∈ (sources edges n).filter fun m => !(n :: seen).contains m :=
          hfilter ▸ List.mem_cons_self
        obtain ⟨hm, hunseen⟩ := List.mem_filter.1 hmem
        simp only [List.contains_cons, Bool.not_or, Bool.and_eq_true, Bool.not_eq_true',
          beq_eq_false_iff_ne] at hunseen
        -- it was finished before `n`, to which it leads
        have hunseen' : k ∉ seen := fun hs => by simp [hs] at hunseen
        have hleft := (hsources n List.mem_cons_self k hm).resolve_left hunseen'
        have hedge := mem_sources.1 hm
        exact .head hedge (hback k ((List.mem_cons.1 hleft).resolve_left hunseen.1) hedge)
      next =>
        refine hrest.of_backtrack? (sources_of_seen hsources fun m hm => ?_) h
        exact List.mem_cons.2 (hm.symm.imp_left id)

/-- When the second search comes to no place, the order of finishing is settling. -/
theorem settling_of_backtrack? : ∀ {order seen : List Nat}, order.Nodup →
    (∀ n ∈ order, n ∉ seen ∧ (n, n) ∉ edges ∧ ∀ m ∈ targets edges n, m ∈ order) →
    backtrack? edges order seen = none → Settling edges order
  | [], _, _, _, _ => trivial
  | n :: rest, seen, hnodup, horder, h => by
    obtain ⟨hn, hnodup⟩ := List.nodup_cons.1 hnodup
    obtain ⟨⟨hseen, hloop, htargets⟩, hrest⟩ := List.forall_mem_cons.1 horder
    rw [backtrack?, if_neg fun hc => hseen (List.contains_iff_mem.1 hc)] at h
    dsimp only at h
    split at h
    · cases h
    next hnone =>
    -- what leads to `n` was seen, so nothing after `n` does
    have hsources {m : Nat} (hm : m ∈ rest) : (m, n) ∉ edges := fun hedge => by
      have := List.filter_eq_nil_iff.1 hnone m (mem_sources.2 hedge)
      have hne : m ≠ n := fun e => hn (e ▸ hm)
      simp [hne, (hrest m hm).1] at this
    refine ⟨hn, fun m hm => ?_, settling_of_backtrack? hnodup (fun m hm => ?_) h⟩
    · refine (List.mem_cons.1 (htargets m hm)).resolve_left fun e => hloop ?_
      exact mem_targets.1 (e ▸ hm)
    · obtain ⟨hseen, hloop, htargets⟩ := hrest m hm
      refine ⟨?_, hloop, fun k hk => ?_⟩
      · exact fun hmem => (List.mem_cons.1 hmem).elim (fun e => hn (e ▸ hm)) hseen
      · refine (List.mem_cons.1 (htargets k hk)).resolve_left fun e => hsources hm ?_
        exact mem_targets.1 (e ▸ hk)

/-! ## Both searches -/

section Both

variable {s : Selection} {n : Nat}

theorem ends_exploreAll (hcovers : Covers s.places s.edges) :
    Ends s.places s.edges (· ∈ s.places)
      (exploreAll s.edges (2 * (s.places.length + s.edges.length) + 1) s.places {}) :=
  (exploreAll_ends hcovers (by rw [List.length_append, List.length_map]; omega) (fun _ hn => hn)
    .start).imp fun _ hn => .inl hn

theorem of_cycle? (hcovers : Covers s.places s.edges) (h : s.cycle? = some n) :
    Relation.TransGen (Leads s.edges) n n := by
  have hends := ends_exploreAll hcovers
  unfold cycle? at h
  split at h
  next m hexplore =>
    rw [hexplore] at hends
    cases h
    exact .single hends
  next p hexplore =>
    rw [hexplore] at hends
    obtain ⟨hdone, hfound⟩ := hends
    refine hdone.returning.of_backtrack? (fun k _ m hm => .inr ?_) h
    exact hdone.mem_finished (hfound m (hcovers _ (mem_sources.1 hm)).1)

/-- Where none is found, there is a settling order of all places. -/
theorem settling_of_cycle? (hcovers : Covers s.places s.edges) (h : s.cycle? = none) :
    ∃ order, Settling s.edges order ∧ ∀ n ∈ s.places, n ∈ order := by
  have hends := ends_exploreAll hcovers
  unfold cycle? at h
  split at h
  · cases h
  next p hexplore =>
    rw [hexplore] at hends
    obtain ⟨hdone, hfound⟩ := hends
    have hall (n : Nat) (hn : n ∈ s.places) : n ∈ p.finished := hdone.mem_finished (hfound n hn)
    refine ⟨p.finished, settling_of_backtrack? hdone.nodup (fun n hn => ?_) h, hall⟩
    refine ⟨List.not_mem_nil, hdone.loopless n (hdone.discovered n hn), fun m hm => ?_⟩
    exact hall m (hcovers _ (mem_targets.1 hm)).2

theorem cycle?_eq_none {s : Selection} (hacyclic : Acyclic s.edges)
    (hcovers : Covers s.places s.edges) : s.cycle? = none := by
  cases h : s.cycle? with
  | none => rfl
  | some n => exact absurd (of_cycle? hcovers h) (hacyclic n)

end Both

end Rebuild.Selection
