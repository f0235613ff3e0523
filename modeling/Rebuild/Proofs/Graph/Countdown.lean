import Rebuild.Proofs.Graph.Levels

/-!
# Cycles that are reported, and counters that never fail

A builder named by a planning error lies on a cycle of what is selected: the search names
nobody else, and peeling has no occasion to. Written out edge by edge, peeling lowers a
counter for every edge out of a wave. Done with a check, that comes to the same as
lowering all counters at once: each of them counts the prerequisites in no wave yet, and
an edge out of a wave takes one of them away. So no counter at zero is ever lowered.

* `lower`, `peelStrictly`: peeling with a check of every counter that is lowered.
* `foldlM_lower`, `count_targets`: what the edges out of a wave do to a counter.
* `peelStrictly_eq`: peeling with checks is peeling.
* `cycle_is_real`: the builder that is named, and that only the search names one.
-/
namespace Rebuild

namespace Selection

/-! ## Peeling with checks -/

/-- What can go wrong when places are peeled off. -/
inductive PeelFault where
  /-- All places wait, this one first. -/
  | stuck (n : Nat)
  /-- The counter of the place is to be lowered, and it is zero. -/
  | below (n : Nat)
  /-- Places are left after all rounds. -/
  | spent
  deriving DecidableEq, Repr

/-- Lowers the counter of a place. -/
def lower (counter : Nat → Nat) (n : Nat) : Except PeelFault (Nat → Nat) :=
  if counter n = 0 then .error (.below n)
  else .ok fun m => if m = n then counter m - 1 else counter m

/-- Peels off the places whose counters are zero, and lowers a counter for every edge out of them,
the newest edge of each place first. -/
def peelStrictly (edges : List (Nat × Nat)) : (rounds : Nat) → (counter : Nat → Nat) →
    (remaining : List Nat) → Except PeelFault (List (List Nat))
  | _, _, [] => .ok []
  | 0, _, _ :: _ => .error .spent
  | rounds + 1, counter, n :: rest =>
    let ready := (n :: rest).filter fun m => counter m == 0
    if ready.isEmpty then .error (.stuck n)
    else do
      let counter ← (ready.flatMap fun m => (targets edges m).reverse).foldlM lower counter
      let left := (n :: rest).filter fun m => !ready.contains m
      return ready :: (← peelStrictly edges rounds counter left)

variable {edges waiting : List (Nat × Nat)} {done : List Nat} {counter : Nat → Nat}

/-- Counters that are high enough are lowered as often as their places occur. -/
theorem foldlM_lower : ∀ {l : List Nat} {counter : Nat → Nat}, (∀ n, l.count n ≤ counter n) →
    l.foldlM lower counter = .ok fun n => counter n - l.count n
  | [], _, _ => rfl
  | a :: l, counter, h => by
    have ha := h a
    rw [List.count_cons_self] at ha
    have hlower : lower counter a = .ok fun m => if m = a then counter m - 1 else counter m :=
      if_neg (by omega)
    have hrest (n : Nat) : l.count n ≤ if n = a then counter n - 1 else counter n := by
      have hn := h n
      rw [List.count_cons] at hn
      split
      next e => subst e; omega
      next => omega
    rw [List.foldlM_cons, bind_ok hlower, foldlM_lower hrest]
    congr 1
    funext n
    rw [List.count_cons]
    by_cases e : n = a
    · subst e
      rw [if_pos rfl, beq_self_eq_true, if_pos rfl]
      omega
    · rw [if_neg e, beq_false_of_ne (Ne.symm e)]
      rfl

theorem count_targets (edges : List (Nat × Nat)) (m n : Nat) :
    (targets edges m).count n = ((sources edges n).filter [m].contains).length := by
  induction edges with
  | nil => rfl
  | cons e edges ih =>
    unfold targets sources at ih ⊢
    rw [List.filterMap_cons, List.filterMap_cons]
    by_cases hm : e.1 = m <;> by_cases hn : e.2 = n <;> simp_all

theorem count_flatMap_targets {ready : List Nat} (hnodup : ready.Nodup) (n : Nat) :
    (ready.flatMap fun m => (targets edges m).reverse).count n =
      ((sources edges n).filter ready.contains).length := by
  induction ready with
  | nil =>
    have hnone : (sources edges n).filter (fun m => ([] : List Nat).contains m) = [] :=
      List.filter_eq_nil_iff.2 fun _ _ => nofun
    exact (congrArg List.length hnone).symm
  | cons m ready ih =>
    obtain ⟨hm, hnodup⟩ := List.nodup_cons.1 hnodup
    have hone := @length_filter_append [m] ready (by simpa using hm) (sources edges n)
    have hrest := @length_filter_append ready [] (fun _ _ => List.not_mem_nil) (sources edges n)
    have hall := @length_filter_append (m :: ready) [] (fun _ _ => List.not_mem_nil)
      (sources edges n)
    rw [List.append_nil] at hrest hall
    rw [List.singleton_append] at hone
    rw [List.flatMap_cons, List.count_append, List.count_reverse, count_targets, ih hnodup]
    omega

/-! ## Counters that are right -/

/-- Every place is counted as often as a prerequisite of it is not done. -/
def Counts (edges : List (Nat × Nat)) (done : List Nat) (counter : Nat → Nat) : Prop :=
  ∀ n, counter n = (waitsFor edges done n).length

theorem Counts.filter_eq_ready (h : Counts edges done counter) (hw : Waiting edges done waiting) :
    ((waiting.map Prod.fst).filter fun m => counter m == 0) = ready waiting := by
  rw [ready, List.filter_map]
  refine congrArg _ (List.filter_congr fun w hmem => ?_)
  show (counter w.1 == 0) = _
  rw [h w.1, hw.counter w hmem]

theorem Waiting.filter_eq_left (hw : Waiting edges done waiting) :
    ((waiting.map Prod.fst).filter fun m => !(ready waiting).contains m) =
      (left edges waiting).map Prod.fst := by
  rw [left, List.map_map, List.filter_map]
  refine congrArg _ (List.filter_congr fun w hmem => ?_)
  show (!(ready waiting).contains w.1) = (w.2 != 0)
  rw [Bool.eq_iff_iff, Bool.not_eq_true', bne_iff_ne, Ne, ← hw.mem_ready_iff hmem,
    ← List.contains_iff_mem, Bool.not_eq_true]

/-- The edges out of the places that wait for nothing lower no counter at zero, and they leave the
counters right. -/
theorem Counts.foldlM_lower (h : Counts edges done counter) (hw : Waiting edges done waiting) :
    ∃ counter', ((ready waiting).flatMap fun m => (targets edges m).reverse).foldlM lower counter =
        .ok counter' ∧ Counts edges (ready waiting ++ done) counter' := by
  have hnodup : (ready waiting).Nodup :=
    (hw.ascending.sublist (List.filter_sublist.map _)).imp Nat.ne_of_lt
  have hsplit (n : Nat) := length_filter_append hw.ready_undone (sources edges n)
  have hcounter (n : Nat) :
      counter n = ((sources edges n).filter fun m => !done.contains m).length :=
    h n
  refine ⟨_, Selection.foldlM_lower fun n => ?_, fun n => ?_⟩
  · rw [count_flatMap_targets hnodup, hcounter, hsplit]
    omega
  · show counter n - _ = ((sources edges n).filter _).length
    rw [count_flatMap_targets hnodup, hcounter, hsplit]
    omega

theorem peelStrictly_eq : ∀ {fuel : Nat} {waiting : List (Nat × Nat)} {done : List Nat}
    {counter : Nat → Nat}, Counts edges done counter → Waiting edges done waiting →
    waiting.length ≤ fuel →
    peelStrictly edges fuel counter (waiting.map Prod.fst) =
      (peel edges fuel waiting).mapError .stuck
  | fuel, [], _, _, _, _, _ => by cases fuel <;> rfl
  | fuel + 1, first :: rest, done, counter, h, hw, hfuel => by
    have hready := h.filter_eq_ready hw
    have hleft := hw.filter_eq_left
    obtain ⟨counter', hlower, h'⟩ := h.foldlM_lower hw
    rw [peel_cons]
    rw [List.map_cons] at hready hleft ⊢
    rw [peelStrictly, hready]
    dsimp only
    by_cases hempty : (ready (first :: rest)).isEmpty
    · rw [if_pos hempty, if_pos hempty]
      rfl
    · have hlength : (left edges (first :: rest)).length < _ :=
        length_left_lt (by simpa using hempty)
      have hrest : peelStrictly edges fuel counter' ((left edges (first :: rest)).map Prod.fst) =
          (peel edges fuel (left edges (first :: rest))).mapError .stuck :=
        peelStrictly_eq h' hw.step (show (left edges (first :: rest)).length ≤ _ by omega)
      rw [if_neg hempty, if_neg hempty, bind_ok hlower, hleft, hrest]
      cases peel edges fuel (left edges (first :: rest)) <;> rfl

/-! ## Planning -/

section Planning

variable {β : Type} {g : Graph β} {root : Option BuilderId} {s : Selection} {n : Nat}

theorem plan_of_cycle? (hs : g.select root = .ok s) (h : s.cycle? = some n) :
    g.plan root = .error (.cycle (g.idAt n)) := by
  unfold Graph.plan
  rw [bind_ok hs, h]
  rfl

theorem Sound.peelStrictly_eq (h : s.Sound g) :
    peelStrictly s.edges s.places.length (fun n => (sources s.edges n).length) s.places =
      (peel s.edges s.places.length s.counters).mapError .stuck := by
  have hcounts : Counts s.edges [] fun n => (sources s.edges n).length := fun n =>
    (congrArg List.length (List.filter_eq_self.2 (by simp))).symm
  have hstrictly := Selection.peelStrictly_eq hcounts h.waiting
    (show _ ≤ s.places.length by rw [counters, List.length_map])
  rwa [map_counters] at hstrictly

theorem Exact.plan_ok (h : s.Exact g root) (hs : g.select root = .ok s) (hnone : s.cycle? = none) :
    ∃ waves, peel s.edges s.places.length s.counters = .ok waves ∧
      g.plan root = .ok (s.planOf waves) := by
  obtain ⟨waves, hwaves⟩ := h.peel_ok_of_cycle? (sound_of_select hs) hnone
  have hplan := plan_cases hs
  rw [hnone, hwaves] at hplan
  exact ⟨waves, hwaves, hplan⟩

end Planning

end Selection

namespace Graph

variable {β : Type} (g : Graph β)

theorem unknown?_eq_none {root : Option BuilderId}
    (hends : ∀ e ∈ g.edges, g.contains e.prerequisite = true ∧ g.contains e.dependent = true)
    (hroot : ∀ r ∈ root, g.contains r = true) : g.unknown? root = none := by
  have hcontains : ∀ id ∈ g.ends ++ root.toList, g.contains id = true := by
    intro id hid
    rcases List.mem_append.1 hid with hid | hid
    · obtain ⟨e, he, hid⟩ := List.mem_flatMap.1 hid
      obtain ⟨hp, hd⟩ := hends e ((SortedSet.mem_toList _ _).1 he)
      simp only [List.mem_cons, List.not_mem_nil, or_false] at hid
      exact hid.elim (fun h => h ▸ hp) fun h => h ▸ hd
    · exact hroot id (Option.mem_toList.1 hid)
  refine List.find?_eq_none.2 fun id hid => ?_
  rw [hcontains id hid]
  exact nofun

end Graph

/-- Where everybody is known that edges and the root name, a builder that planning names for a cycle
is the one that the search found; it is selected and lies on a cycle of what is selected. Peeling
never lowers a counter at zero, and where the search finds nobody it is never stuck either, so that
there is a plan. -/
theorem cycle_is_real {β : Type} (g : Graph β) (root : Option BuilderId)
    (hends : ∀ e ∈ g.edges, g.contains e.prerequisite = true ∧ g.contains e.dependent = true)
    (hroot : ∀ r ∈ root, g.contains r = true) :
    ∃ s, g.select root = .ok s ∧ s.Exact g root ∧
      (∀ id, g.plan root = .error (.cycle id) →
        (∃ n ∈ s.places, s.cycle? = some n ∧ g.idAt n = id) ∧
        g.Selects root id ∧ g.OnCycle root id) ∧
      let strictly := Selection.peelStrictly s.edges s.places.length
        (fun n => (Selection.sources s.edges n).length) s.places
      strictly = (Selection.peel s.edges s.places.length s.counters).mapError .stuck ∧
      (s.cycle? = none → ∃ waves, strictly = .ok waves ∧ g.plan root = .ok (s.planOf waves)) := by
  have hselect := Selection.select_cases g root
  rw [g.unknown?_eq_none hends hroot] at hselect
  obtain ⟨s, hs, hexact⟩ := hselect
  have hstrictly := (Selection.sound_of_select hs).peelStrictly_eq
  refine ⟨s, hs, hexact, fun id hplan => ?_, hstrictly, fun hnone => ?_⟩
  · cases hcycle : s.cycle? with
    | none =>
      obtain ⟨waves, -, hok⟩ := hexact.plan_ok hs hcycle
      rw [hok] at hplan
      cases hplan
    | some n =>
      rw [Selection.plan_of_cycle? hs hcycle] at hplan
      cases hplan
      have hway := Selection.of_cycle? hexact.covers hcycle
      obtain ⟨m, hedge, -⟩ := Relation.TransGen.head'_iff.1 hway
      have hn := (hexact.covers _ hedge).1
      exact ⟨⟨n, hn, rfl, rfl⟩, ((hexact.mem_places n).1 hn).2, hexact.lift hway⟩
  · obtain ⟨waves, hwaves, hplan⟩ := hexact.plan_ok hs hnone
    rw [hwaves] at hstrictly
    exact ⟨waves, hstrictly, hplan⟩

/-- Two builders that need each other, and a third that one of them needs. -/
def entangled : Graph Unit where
  nodes := [(⟨"t", "a"⟩, ()), (⟨"t", "b"⟩, ()), (⟨"t", "c"⟩, ())]
  edges := .ofList [⟨⟨"t", "a"⟩, ⟨"t", "b"⟩⟩, ⟨⟨"t", "b"⟩, ⟨"t", "c"⟩⟩, ⟨⟨"t", "c"⟩, ⟨"t", "b"⟩⟩]
  distinct := by decide

/-- One of the two is named, and it lies on a cycle. The third alone is planned. -/
theorem cycle_is_real_entangled :
    entangled.plan none = .error (.cycle ⟨"t", "c"⟩) ∧ entangled.OnCycle none ⟨"t", "c"⟩ ∧
      entangled.plan (some ⟨"t", "a"⟩) = .ok ⟨[[0]], [(0, [])]⟩ := by
  have hends : ∀ e ∈ entangled.edges.toList,
      entangled.contains e.prerequisite = true ∧ entangled.contains e.dependent = true := by decide
  have hplan : entangled.plan none = .error (.cycle ⟨"t", "c"⟩) := by rfl
  obtain ⟨s, -, -, hcycle, -⟩ := cycle_is_real entangled none
    (fun e he => hends e ((SortedSet.mem_toList _ _).2 he)) nofun
  exact ⟨hplan, (hcycle _ hplan).2.2, by rfl⟩

end Rebuild
