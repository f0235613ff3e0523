import Mathlib.Logic.Relation
import Rebuild.Graph.Cycle
import Rebuild.Proofs.Graph.Waves

/-!
# The search along the edges

The first search follows the edges with a stack on which a place may lie more than
once. A place is open from when it is found until it is finished, and it is finished
when it comes to lie on top again. Whatever lies above an open place is reached from
it. So an edge from a place to one that is finished later is part of a cycle: that
one was open when the first was finished, and it reaches all that lay above it.

* `Returning`: an order of finishing with that property.
* `Searching`: the invariant, for any graph. `Searching.discover`, `Searching.finish`:
  what the two steps keep.
* `exploreAll_ends`: there is fuel enough, so the search ends with an edge from a place
  to itself, or with all places finished in such an order.
-/
namespace Rebuild.Selection

/-- Somebody at the first place must finish before somebody at the second starts. -/
def Leads (edges : List (Nat × Nat)) (a b : Nat) : Prop := (a, b) ∈ edges

/-- No place is reached from itself. -/
def Acyclic (edges : List (Nat × Nat)) : Prop := ∀ n, ¬Relation.TransGen (Leads edges) n n

/-- Both ends of every edge are among the places. -/
def Covers (places : List Nat) (edges : List (Nat × Nat)) : Prop :=
  ∀ e ∈ edges, e.1 ∈ places ∧ e.2 ∈ places

theorem mem_targets {edges : List (Nat × Nat)} {m n : Nat} :
    m ∈ targets edges n ↔ (n, m) ∈ edges := by
  unfold targets
  rw [List.mem_filterMap]
  constructor
  · intro ⟨⟨a, b⟩, he, h⟩
    simp only [Option.ite_none_right_eq_some, Option.some.injEq] at h
    obtain ⟨rfl, rfl⟩ := h
    exact he
  · intro he
    exact ⟨(n, m), he, by simp⟩

theorem length_targets (edges : List (Nat × Nat)) (n : Nat) :
    (targets edges n).length = ((edges.map Prod.fst).filter [n].contains).length := by
  induction edges with
  | nil => rfl
  | cons e edges ih =>
    unfold targets at ih ⊢
    rw [List.filterMap_cons, List.map_cons, List.filter_cons]
    by_cases h : e.1 = n
    · simp [h, ih]
    · simp [h, ih]

/-! ## Stacks -/

/-- What lies on a stack above the first occurrence of a place. -/
def above (n : Nat) (stack : List Nat) : List Nat := stack.takeWhile (· != n)

theorem above_cons_self (n : Nat) (stack : List Nat) : above n (n :: stack) = [] := by
  simp [above]

theorem above_cons_of_ne {n m : Nat} (h : m ≠ n) (stack : List Nat) :
    above n (m :: stack) = m :: above n stack := by
  simp [above, h]

theorem above_append {n : Nat} : ∀ {first : List Nat}, n ∉ first → ∀ stack : List Nat,
    above n (first ++ stack) = first ++ above n stack
  | [], _, _ => rfl
  | m :: first, h, stack => by
    rw [List.mem_cons, not_or] at h
    rw [List.cons_append, above_cons_of_ne (Ne.symm h.1), above_append h.2, List.cons_append]

/-! ## Steps -/

/-- A place was found and is not finished. -/
def Progress.Open (p : Progress) (n : Nat) : Prop := n ∈ p.discovered ∧ n ∉ p.finished

/-- The latest first: wherever an edge leads from a place to one that was finished later, a way
leads back. -/
def Returning (edges : List (Nat × Nat)) : List Nat → Prop
  | [] => True
  | n :: rest =>
    (∀ m ∈ rest, (m, n) ∈ edges → Relation.TransGen (Leads edges) n m) ∧ Returning edges rest

/-- The first search in the course. -/
structure Searching (places : List Nat) (edges : List (Nat × Nat)) (stack : List Nat)
    (p : Progress) : Prop where
  returning : Returning edges p.finished
  nodup : p.finished.Nodup
  discovered : ∀ n ∈ p.finished, n ∈ p.discovered
  loopless : ∀ n ∈ p.discovered, (n, n) ∉ edges
  places : ∀ n ∈ stack, n ∈ places
  stacked : ∀ n, p.Open n → n ∈ stack
  /-- What an open place leads to was found, or it is to be looked at before the place. -/
  targets : ∀ n, p.Open n → ∀ m ∈ targets edges n, m ∈ p.discovered ∨ m ∈ above n stack
  reached : ∀ n, p.Open n → ∀ m ∈ above n stack, Relation.TransGen (Leads edges) n m
  /-- What a finished place leads to is finished, or it is open and a way leads back. -/
  back : ∀ n ∈ p.finished, ∀ m ∈ Selection.targets edges n,
    m ∈ p.finished ∨ p.Open m ∧ Relation.TransGen (Leads edges) m n

variable {edges : List (Nat × Nat)} {places stack : List Nat} {p : Progress} {n : Nat}

/-- A place that is found has all it leads to put on top, but for what was found before. -/
theorem Searching.discover (h : Searching places edges (n :: stack) p)
    (hcovers : Covers places edges) (hn : n ∉ p.discovered) (hloop : (n, n) ∉ edges) :
    Searching places edges
      ((Selection.targets edges n).filter (fun m => !(n :: p.discovered).contains m) ++ n :: stack)
      { p with discovered := n :: p.discovered } := by
  have hunseen (m : Nat) : m ∈ (Selection.targets edges n).filter
      (fun m => !(n :: p.discovered).contains m) ↔
      (n, m) ∈ edges ∧ m ∉ n :: p.discovered := by
    rw [List.mem_filter, mem_targets]
    simp
  generalize (Selection.targets edges n).filter (fun m => !(n :: p.discovered).contains m) =
    unseen at hunseen
  have habove : above n (unseen ++ n :: stack) = unseen := by
    rw [above_append fun hmem => ((hunseen n).1 hmem).2 List.mem_cons_self, above_cons_self,
      List.append_nil]
  -- an open place other than the new one lay further down before
  have hold {m : Nat} (hm : Progress.Open { p with discovered := n :: p.discovered } m)
      (hne : m ≠ n) : p.Open m ∧ above m (n :: stack) = n :: above m stack ∧
        above m (unseen ++ n :: stack) = unseen ++ n :: above m stack := by
    have hdiscovered : m ∈ p.discovered := (List.mem_cons.1 hm.1).resolve_left hne
    have hcons := above_cons_of_ne hne.symm stack
    refine ⟨⟨hdiscovered, hm.2⟩, hcons, ?_⟩
    rw [above_append fun hmem => ((hunseen m).1 hmem).2 hm.1, hcons]
  refine ⟨h.returning, h.nodup, fun m hm => List.mem_cons_of_mem _ (h.discovered m hm),
    List.forall_mem_cons.2 ⟨hloop, h.loopless⟩, ?_, ?_, ?_, ?_, ?_⟩
  · intro m hm
    rcases List.mem_append.1 hm with hm | hm
    · exact (hcovers _ ((hunseen m).1 hm).1).2
    · exact h.places m hm
  · intro m hm
    by_cases hne : m = n
    · exact List.mem_append_right _ (hne ▸ List.mem_cons_self)
    · exact List.mem_append_right _ (h.stacked m (hold hm hne).1)
  · intro m hm k hk
    by_cases hne : m = n
    · subst hne
      rw [habove, hunseen]
      by_cases hseen : k ∈ m :: p.discovered
      · exact .inl hseen
      · exact .inr ⟨mem_targets.1 hk, hseen⟩
    · obtain ⟨hopen, hbefore, hafter⟩ := hold hm hne
      rw [hafter]
      refine (h.targets m hopen k hk).imp (List.mem_cons_of_mem _) fun hmem => ?_
      exact List.mem_append_right _ (hbefore ▸ hmem)
  · intro m hm k hk
    by_cases hne : m = n
    · subst hne
      rw [habove] at hk
      exact .single ((hunseen k).1 hk).1
    · obtain ⟨hopen, hbefore, hafter⟩ := hold hm hne
      have hreached := h.reached m hopen
      rw [hbefore] at hreached
      rw [hafter] at hk
      rcases List.mem_append.1 hk with hk | hk
      · exact (hreached n List.mem_cons_self).tail ((hunseen k).1 hk).1
      · exact hreached k hk
  · intro m hm k hk
    exact (h.back m hm k hk).imp_right fun ⟨hopen, hway⟩ =>
      ⟨⟨List.mem_cons_of_mem _ hopen.1, hopen.2⟩, hway⟩

theorem Searching.drop (h : Searching places edges (n :: stack) p) (hn : n ∈ p.finished) :
    Searching places edges stack p := by
  have hne {m : Nat} (hm : p.Open m) : n ≠ m := fun e => hm.2 (e ▸ hn)
  refine ⟨h.returning, h.nodup, h.discovered, h.loopless,
    fun m hm => h.places m (List.mem_cons_of_mem _ hm), ?_, ?_, ?_, h.back⟩
  · exact fun m hm => (List.mem_cons.1 (h.stacked m hm)).resolve_left (hne hm).symm
  · intro m hm k hk
    rcases h.targets m hm k hk with hfound | habove
    · exact .inl hfound
    · rw [above_cons_of_ne (hne hm), List.mem_cons] at habove
      exact habove.imp_left fun e : k = n => e ▸ h.discovered n hn
  · intro m hm k hk
    exact h.reached m hm k (above_cons_of_ne (hne hm) stack ▸ List.mem_cons_of_mem _ hk)

/-- An open place that lies on top again is finished. Whatever open place it leads to lies below it,
and so it is reached from there. -/
theorem Searching.finish (h : Searching places edges (n :: stack) p) (hn : p.Open n) :
    Searching places edges stack { p with finished := n :: p.finished } := by
  have hopen {m : Nat} (hm : Progress.Open { p with finished := n :: p.finished } m) :
      p.Open m ∧ n ≠ m :=
    ⟨⟨hm.1, fun hmem => hm.2 (List.mem_cons_of_mem _ hmem)⟩,
      fun e => hm.2 (e ▸ List.mem_cons_self)⟩
  have hkept {m : Nat} (hm : p.Open m) (hne : m ≠ n) :
      Progress.Open { p with finished := n :: p.finished } m :=
    ⟨hm.1, fun hmem => hm.2 ((List.mem_cons.1 hmem).resolve_left hne)⟩
  refine ⟨⟨?_, h.returning⟩, List.nodup_cons.2 ⟨hn.2, h.nodup⟩,
    List.forall_mem_cons.2 ⟨hn.1, h.discovered⟩, h.loopless,
    fun m hm => h.places m (List.mem_cons_of_mem _ hm), ?_, ?_, ?_, ?_⟩
  · intro m hm hedge
    exact ((h.back m hm n (mem_targets.2 hedge)).resolve_left hn.2).2
  · intro m hm
    obtain ⟨hm, hne⟩ := hopen hm
    exact (List.mem_cons.1 (h.stacked m hm)).resolve_left hne.symm
  · intro m hm k hk
    obtain ⟨hm, hne⟩ := hopen hm
    rcases h.targets m hm k hk with hfound | habove
    · exact .inl hfound
    · rw [above_cons_of_ne hne, List.mem_cons] at habove
      exact habove.imp_left fun e : k = n => e ▸ hn.1
  · intro m hm k hk
    obtain ⟨hm, hne⟩ := hopen hm
    exact h.reached m hm k (above_cons_of_ne hne stack ▸ List.mem_cons_of_mem _ hk)
  · intro m hm k hk
    by_cases hkn : k = n
    · exact .inl (hkn ▸ List.mem_cons_self)
    rcases List.mem_cons.1 hm with rfl | hm
    · have hfound :=
        (h.targets m hn k hk).resolve_right (above_cons_self m stack ▸ List.not_mem_nil)
      by_cases hfinished : k ∈ p.finished
      · exact .inl (List.mem_cons_of_mem _ hfinished)
      · refine .inr ⟨hkept ⟨hfound, hfinished⟩ hkn, h.reached k ⟨hfound, hfinished⟩ m ?_⟩
        rw [above_cons_of_ne (Ne.symm hkn)]
        exact List.mem_cons_self
    · exact (h.back m hm k hk).imp (List.mem_cons_of_mem _) fun ⟨hopen, hway⟩ =>
        ⟨hkept hopen hkn, hway⟩

/-! ## Whole searches -/

/-- Nothing lies on the stack between the searches from two places, so whatever was found is
finished. -/
theorem Searching.mem_finished (h : Searching places edges [] p) (hn : n ∈ p.discovered) :
    n ∈ p.finished :=
  Decidable.by_contra fun hopen => List.not_mem_nil (h.stacked n ⟨hn, hopen⟩)

theorem Searching.restart (h : Searching places edges [] p) (hn : n ∈ places) :
    Searching places edges [n] p := by
  have hnone {m : Nat} (hm : p.Open m) : False := List.not_mem_nil (h.stacked m hm)
  exact ⟨h.returning, h.nodup, h.discovered, h.loopless, fun m hm => List.mem_singleton.1 hm ▸ hn,
    fun m hm => (hnone hm).elim, fun m hm => (hnone hm).elim, fun m hm => (hnone hm).elim, h.back⟩

theorem Searching.start : Searching places edges [] {} := by
  have hnone {m : Nat} {P : Prop} (hm : Progress.Open {} m) : P := (List.not_mem_nil hm.1).elim
  exact ⟨trivial, .nil, nofun, nofun, nofun, fun m => hnone, fun m => hnone, fun m => hnone, nofun⟩

/-- What is to be done yet: places to be found, and edges out of them to be followed. -/
def remaining (places : List Nat) (edges : List (Nat × Nat)) (discovered : List Nat) : Nat :=
  ((places ++ edges.map Prod.fst).filter fun m => !discovered.contains m).length

/-- Finding a place pays for all that is put on the stack. -/
theorem length_targets_lt_remaining {discovered : List Nat} (hn : n ∈ places)
    (hnew : n ∉ discovered) : (targets edges n).length + remaining places edges (n :: discovered) <
      remaining places edges discovered := by
  have hsplit := @length_filter_append [n] discovered (by simpa using hnew)
    (places ++ edges.map Prod.fst)
  have hmem : n ∈ places.filter [n].contains := List.mem_filter.2 ⟨hn, by simp⟩
  have hpos := List.length_pos_of_mem hmem
  rw [List.filter_append (p := [n].contains), List.length_append, ← length_targets] at hsplit
  unfold remaining
  rw [List.singleton_append] at hsplit
  omega

/-- How a search ends that has some places to find: at a place with an edge to itself, or with
nothing on the stack and all those places found. -/
def Ends (places : List Nat) (edges : List (Nat × Nat)) (wanted : Nat → Prop) :
    Except Nat Progress → Prop
  | .error n => (n, n) ∈ edges
  | .ok p => Searching places edges [] p ∧ ∀ n, wanted n → n ∈ p.discovered

theorem Ends.imp {wanted wanted' : Nat → Prop} {result : Except Nat Progress}
    (h : Ends places edges wanted result) (himp : ∀ n, wanted' n → wanted n) :
    Ends places edges wanted' result := by
  cases result with
  | error n => exact h
  | ok p => exact ⟨h.1, fun n hn => h.2 n (himp n hn)⟩

/-- With fuel enough a search finds all that is on the stack. -/
theorem explore_ends (hcovers : Covers places edges) :
    ∀ {fuel : Nat} {stack : List Nat} {p : Progress}, Searching places edges stack p →
      stack.length + remaining places edges p.discovered ≤ fuel →
      Ends places edges (fun n => n ∈ stack ∨ n ∈ p.discovered) (explore edges fuel stack p)
  | 0, stack, p, h, hfuel => by
    have hempty : stack = [] := List.length_eq_zero_iff.1 (by omega)
    subst hempty
    exact ⟨h, fun n hn => hn.resolve_left List.not_mem_nil⟩
  | fuel + 1, [], p, h, _ => ⟨h, fun n hn => hn.resolve_left List.not_mem_nil⟩
  | fuel + 1, n :: stack, p, h, hfuel => by
    rw [List.length_cons] at hfuel
    rw [explore]
    by_cases hn : n ∈ p.discovered
    · have hfewer (m : Nat) : m ∈ n :: stack ∨ m ∈ p.discovered → m ∈ stack ∨ m ∈ p.discovered :=
        fun hm => hm.elim (fun hm => (List.mem_cons.1 hm).elim (fun e => .inr (e ▸ hn)) .inl) .inr
      rw [if_pos (List.contains_iff_mem.2 hn)]
      by_cases hfinished : n ∈ p.finished
      · rw [if_pos (List.contains_iff_mem.2 hfinished)]
        exact (explore_ends hcovers (h.drop hfinished) (by omega)).imp hfewer
      · rw [if_neg fun hc => hfinished (List.contains_iff_mem.1 hc)]
        exact (explore_ends hcovers (h.finish ⟨hn, hfinished⟩) (by dsimp only; omega)).imp hfewer
    · rw [if_neg fun hc => hn (List.contains_iff_mem.1 hc)]
      by_cases hloop : (n, n) ∈ edges
      · rw [if_pos (List.contains_iff_mem.2 (mem_targets.2 hloop))]
        exact hloop
      · rw [if_neg fun hc => hloop (mem_targets.1 (List.contains_iff_mem.1 hc))]
        have hpaid : (Selection.targets edges n).length + remaining places edges _ < _ :=
          length_targets_lt_remaining (h.places n List.mem_cons_self) hn
        have hpushed := List.length_filter_le (fun m => !(n :: p.discovered).contains m)
          (Selection.targets edges n)
        refine (explore_ends hcovers (h.discover hcovers hn hloop)
          (by rw [List.length_append, List.length_cons]; dsimp only; omega)).imp fun m hm => ?_
        exact hm.imp (List.mem_append_right _) (List.mem_cons_of_mem _)

theorem exploreAll_ends (hcovers : Covers places edges) {fuel : Nat}
    (hfuel : 1 + (places ++ edges.map Prod.fst).length ≤ fuel) :
    ∀ {rest : List Nat} {p : Progress}, (∀ n ∈ rest, n ∈ places) → Searching places edges [] p →
      Ends places edges (fun n => n ∈ rest ∨ n ∈ p.discovered) (exploreAll edges fuel rest p)
  | [], p, _, h => ⟨h, fun n hn => hn.resolve_left List.not_mem_nil⟩
  | n :: rest, p, hrest, h => by
    obtain ⟨hn, hrest⟩ := List.forall_mem_cons.1 hrest
    rw [exploreAll]
    split
    next hc =>
      refine (exploreAll_ends hcovers hfuel hrest h).imp fun m hm => ?_
      refine hm.elim (fun hm => ?_) .inr
      exact (List.mem_cons.1 hm).elim (fun e => .inr (e ▸ List.contains_iff_mem.1 hc)) .inl
    next =>
      have hleft : remaining places edges p.discovered ≤ _ := List.length_filter_le _ _
      have hends := explore_ends hcovers (h.restart hn)
        (show _ ≤ fuel by rw [List.length_singleton]; omega)
      cases hexplore : explore edges fuel [n] p with
      | error m =>
        rw [hexplore] at hends
        exact hends
      | ok p₁ =>
        rw [hexplore] at hends
        obtain ⟨hdone, hfound⟩ := hends
        refine (exploreAll_ends hcovers hfuel hrest hdone).imp fun m hm => ?_
        rcases hm with hm | hm
        · exact (List.mem_cons.1 hm).elim (fun e => .inr (hfound m (.inl (List.mem_singleton.2 e))))
            .inl
        · exact .inr (hfound m (.inr hm))

end Rebuild.Selection
