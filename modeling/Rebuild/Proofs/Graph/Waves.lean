import Rebuild.Graph.Plan
import Rebuild.Proofs.Graph.Selection

/-!
# Waves

Peeling lowers a counter for every place. The counters are right all the way:
each is the number of prerequisites that are in no wave yet. So a place joins a
wave only when all its prerequisites are in earlier ones.

* `Layers`: every wave needs only what earlier waves hold.
* `Layers.induction`: a property that passes from the prerequisites of a place to
  the place holds everywhere.
* `Selection.ready`, `left`, `peel_cons`: one round of peeling.
* `Selection.Waiting`, `Waiting.step`: the counters are right, and a round leaves
  them right. `layers_of_peel`: so do all rounds, and what they give is layers.
* `Plan.Sound`, `sound_of_plan`: what holds of every plan.
-/
namespace Rebuild

/-- No place comes twice, and none comes before or together with what it needs. Within a wave the
places are ascending. -/
def Layers (needs : Nat → List Nat) : (earlier : List Nat) → (waves : List (List Nat)) → Prop
  | _, [] => True
  | earlier, wave :: rest =>
    wave.Pairwise (· < ·) ∧ (∀ n ∈ wave, n ∉ earlier ∧ ∀ m ∈ needs n, m ∈ earlier) ∧
      Layers needs (wave ++ earlier) rest

namespace Layers

variable {needs needs' : Nat → List Nat}

theorem congr : ∀ {waves : List (List Nat)} {earlier : List Nat},
    (∀ n ∈ waves.flatten, ∀ m, m ∈ needs' n → m ∈ needs n) → Layers needs earlier waves →
    Layers needs' earlier waves
  | [], _, _, _ => trivial
  | wave :: rest, earlier, hneeds, ⟨hasc, hwave, hrest⟩ => by
    refine ⟨hasc, fun n hn => ⟨(hwave n hn).1, fun m hm => (hwave n hn).2 m ?_⟩, ?_⟩
    · exact hneeds n (List.mem_append_left _ hn) m hm
    · exact congr (fun n hn => hneeds n (List.mem_append_right _ hn)) hrest

theorem ascending : ∀ {waves : List (List Nat)} {earlier : List Nat}, Layers needs earlier waves →
    ∀ wave ∈ waves, wave.Pairwise (· < ·)
  | w :: rest, _, ⟨hasc, _, hrest⟩, wave, hmem => by
    rcases List.mem_cons.1 hmem with rfl | hmem
    · exact hasc
    · exact hrest.ascending wave hmem

theorem congr_earlier : ∀ {waves : List (List Nat)} {earlier earlier' : List Nat},
    (∀ n, n ∈ earlier ↔ n ∈ earlier') → Layers needs earlier waves → Layers needs earlier' waves
  | [], _, _, _, _ => trivial
  | wave :: rest, earlier, earlier', hmem, ⟨hasc, hwave, hrest⟩ => by
    refine ⟨hasc, fun n hn => ⟨?_, ?_⟩, congr_earlier ?_ hrest⟩
    · rw [← hmem]
      exact (hwave n hn).1
    · intro m hm
      rw [← hmem]
      exact (hwave n hn).2 m hm
    · intro n
      rw [List.mem_append, List.mem_append, hmem]

theorem mem_of_needs : ∀ {waves : List (List Nat)} {earlier : List Nat},
    Layers needs earlier waves → ∀ n ∈ waves.flatten, ∀ m ∈ needs n,
      m ∈ earlier ∨ m ∈ waves.flatten
  | [], _, _, n, hn, _, _ => by cases hn
  | wave :: rest, earlier, ⟨_, hwave, hrest⟩, n, hn, m, hm => by
    rw [List.flatten_cons, List.mem_append] at hn ⊢
    rcases hn with hn | hn
    · exact .inl ((hwave n hn).2 m hm)
    · rcases mem_of_needs hrest n hn m hm with h | h
      · exact (List.mem_append.1 h).elim (fun h => .inr (.inl h)) .inl
      · exact .inr (.inr h)

theorem nodup_flatten : ∀ {waves : List (List Nat)} {earlier : List Nat},
    Layers needs earlier waves → waves.flatten.Nodup ∧ ∀ n ∈ waves.flatten, n ∉ earlier
  | [], _, _ => by simp
  | wave :: rest, earlier, ⟨hasc, hwave, hrest⟩ => by
    obtain ⟨hflat, hearlier⟩ := nodup_flatten hrest
    rw [List.flatten_cons]
    refine ⟨List.nodup_append.2 ⟨hasc.imp Nat.ne_of_lt, hflat, ?_⟩, ?_⟩
    · intro a ha b hb hab
      exact hearlier b hb (List.mem_append_left _ (hab ▸ ha))
    · intro n hn
      rcases List.mem_append.1 hn with hn | hn
      · exact (hwave n hn).1
      · exact fun he => hearlier n hn (List.mem_append_right _ he)

/-- What passes from the prerequisites of a place to the place holds of all places. -/
theorem induction {P : Nat → Prop} : ∀ {waves : List (List Nat)} {earlier : List Nat},
    Layers needs earlier waves → (∀ n ∈ earlier, P n) →
    (∀ n ∈ waves.flatten, (∀ m ∈ needs n, P m) → P n) → ∀ n ∈ waves.flatten, P n
  | [], _, _, _, _, n, hn => by cases hn
  | wave :: rest, earlier, ⟨_, hwave, hrest⟩, hearlier, hstep, n, hn => by
    have hP : ∀ n ∈ wave, P n := fun n hn =>
      hstep n (List.mem_append_left _ hn) fun m hm => hearlier m ((hwave n hn).2 m hm)
    rcases List.mem_append.1 hn with hn | hn
    · exact hP n hn
    · refine induction hrest ?_
        (fun m hm => hstep m (List.mem_append_right _ hm)) n hn
      intro m hm
      exact (List.mem_append.1 hm).elim (hP m) (hearlier m)

end Layers

namespace Selection

/-! ## Counters -/

/-- The prerequisites of a place that are not done. -/
def waitsFor (edges : List (Nat × Nat)) (done : List Nat) (n : Nat) : List Nat :=
  (sources edges n).filter fun m => !done.contains m

/-- Every place still waits, with the number of prerequisites it waits for. -/
structure Waiting (edges : List (Nat × Nat)) (done : List Nat) (waiting : List (Nat × Nat)) :
    Prop where
  ascending : (waiting.map Prod.fst).Pairwise (· < ·)
  undone : ∀ w ∈ waiting, w.1 ∉ done
  counter : ∀ w ∈ waiting, w.2 = (waitsFor edges done w.1).length

theorem length_filter_append {ready done : List Nat} (hdisjoint : ∀ m ∈ ready, m ∉ done) :
    ∀ l : List Nat, (l.filter fun m => !done.contains m).length =
      (l.filter fun m => !(ready ++ done).contains m).length + (l.filter ready.contains).length
  | [] => rfl
  | a :: l => by
    have ih := length_filter_append hdisjoint l
    simp only [List.filter_cons]
    by_cases hr : a ∈ ready
    · have hd := hdisjoint a hr
      simp [hr, hd] at ih ⊢
      omega
    · by_cases hd : a ∈ done <;> simp [hr, hd] at ih ⊢ <;> omega

/-! ## Peeling -/

section Peeling

variable {edges waiting : List (Nat × Nat)} {done : List Nat}

/-- The places that wait for nothing. -/
def ready (waiting : List (Nat × Nat)) : List Nat := (waiting.filter fun w => w.2 == 0).map Prod.fst

/-- What waits when the places that wait for nothing are done. -/
def left (edges waiting : List (Nat × Nat)) : List (Nat × Nat) :=
  (waiting.filter fun w => w.2 != 0).map fun w =>
    (w.1, w.2 - ((sources edges w.1).filter (ready waiting).contains).length)

theorem peel_cons (fuel : Nat) (first : Nat × Nat) (rest : List (Nat × Nat)) :
    peel edges (fuel + 1) (first :: rest) =
      if (ready (first :: rest)).isEmpty then .error first.1
      else (peel edges fuel (left edges (first :: rest))).map (ready (first :: rest) :: ·) := by
  rw [peel]
  refine ite_congr rfl (fun _ => rfl) fun _ => ?_
  show (do return ready (first :: rest) :: (← peel edges fuel (left edges (first :: rest)))) = _
  cases peel edges fuel (left edges (first :: rest)) <;> rfl

theorem mem_ready {waiting : List (Nat × Nat)} {n : Nat} :
    n ∈ ready waiting ↔ (n, 0) ∈ waiting := by
  unfold ready
  rw [List.mem_map]
  constructor
  · rintro ⟨⟨m, k⟩, hmem, rfl⟩
    obtain ⟨hmem, hzero⟩ := List.mem_filter.1 hmem
    rw [beq_iff_eq] at hzero
    exact hzero ▸ hmem
  · intro hmem
    exact ⟨_, List.mem_filter.2 ⟨hmem, rfl⟩, rfl⟩

theorem perm_ready_left (edges waiting : List (Nat × Nat)) :
    (ready waiting ++ (left edges waiting).map Prod.fst).Perm (waiting.map Prod.fst) := by
  have hsplit := (List.filter_append_perm (fun w : Nat × Nat => w.2 == 0) waiting).map Prod.fst
  rw [List.map_append] at hsplit
  unfold left
  rw [List.map_map]
  exact hsplit

theorem Waiting.ready_undone (h : Waiting edges done waiting) : ∀ m ∈ ready waiting, m ∉ done :=
  fun _ hm => h.undone _ (mem_ready.1 hm)

theorem Waiting.mem_ready_iff (h : Waiting edges done waiting) {w : Nat × Nat}
    (hmem : w ∈ waiting) : w.1 ∈ ready waiting ↔ w.2 = 0 := by
  rw [mem_ready]
  constructor
  · intro hzero
    rw [h.counter w hmem, ← h.counter _ hzero]
  · intro hzero
    exact hzero ▸ hmem

/-- What is left when the places that wait for nothing are done. -/
theorem Waiting.step (h : Waiting edges done waiting) :
    Waiting edges (ready waiting ++ done) (left edges waiting) := by
  refine ⟨?_, ?_, ?_⟩
  · unfold left
    rw [List.map_map]
    exact h.ascending.sublist (List.filter_sublist.map _)
  · intro w hw
    obtain ⟨v, hv, rfl⟩ := List.mem_map.1 hw
    obtain ⟨hv, hpos⟩ := List.mem_filter.1 hv
    rw [List.mem_append, not_or]
    exact ⟨fun hready => bne_iff_ne.1 hpos ((h.mem_ready_iff hv).1 hready), h.undone v hv⟩
  · intro w hw
    obtain ⟨v, hv, rfl⟩ := List.mem_map.1 hw
    obtain ⟨hv, -⟩ := List.mem_filter.1 hv
    have hcount := h.counter v hv
    have hsplit := length_filter_append h.ready_undone (sources edges v.1)
    unfold waitsFor at hcount
    show v.2 - _ = ((sources edges v.1).filter fun m => !(ready waiting ++ done).contains m).length
    omega

theorem Waiting.mem_done (h : Waiting edges done waiting) {n m : Nat} (hn : n ∈ ready waiting)
    (hm : m ∈ sources edges n) : m ∈ done := by
  have hcount := h.counter _ (mem_ready.1 hn)
  have hnil : waitsFor edges done n = [] := List.length_eq_zero_iff.1 hcount.symm
  have := List.filter_eq_nil_iff.1 hnil m hm
  simpa using this

theorem layers_of_peel : ∀ {fuel : Nat} {waiting : List (Nat × Nat)} {done : List Nat}
    {waves : List (List Nat)}, Waiting edges done waiting → peel edges fuel waiting = .ok waves →
    Layers (sources edges) done waves ∧ waves.flatten.Perm (waiting.map Prod.fst)
  | fuel, [], done, waves, _, h => by
    cases fuel <;> cases h <;> exact ⟨trivial, .nil⟩
  | 0, w :: rest, done, waves, _, h => by cases h
  | fuel + 1, first :: rest, done, waves, hw, h => by
    rw [peel_cons] at h
    generalize first :: rest = waiting at h hw
    split at h
    · cases h
    · cases hpeel : peel edges fuel (left edges waiting) with
      | error n => rw [hpeel] at h; cases h
      | ok others =>
        rw [hpeel] at h
        cases h
        obtain ⟨hlayers, hperm⟩ := layers_of_peel hw.step hpeel
        refine ⟨⟨?_, fun n hn => ⟨hw.ready_undone n hn, fun m => hw.mem_done hn⟩, hlayers⟩, ?_⟩
        · exact hw.ascending.sublist (List.filter_sublist.map _)
        · exact (hperm.append_left _).trans (perm_ready_left edges waiting)

end Peeling

theorem map_counters (s : Selection) : s.counters.map Prod.fst = s.places := by
  unfold counters
  rw [List.map_map]
  exact List.map_id _

theorem Sound.waiting {β : Type} {s : Selection} {g : Graph β} (h : s.Sound g) :
    Waiting s.edges [] s.counters := by
  refine ⟨?_, fun _ _ => List.not_mem_nil, ?_⟩
  · rw [map_counters]
    exact h.ascending
  · intro w hw
    obtain ⟨n, -, rfl⟩ := List.mem_map.1 hw
    exact (congrArg List.length (List.filter_eq_self.2 (by simp))).symm

end Selection

/-! ## Plans -/

/-- One builder must finish before another starts, directly or by way of others. -/
def Graph.Precedes {β : Type} (g : Graph β) : BuilderId → BuilderId → Prop :=
  Relation.TransGen fun a b => (⟨a, b⟩ : Edge) ∈ g.edges

/-- What a plan of a graph is: waves of places that need only earlier ones, and for each place what
it needs, ascending. -/
structure Plan.Sound {β : Type} (plan : Plan) (g : Graph β) : Prop where
  lt : ∀ n ∈ plan.waves.flatten, n < g.size
  layers : Layers plan.prerequisitesOf [] plan.waves
  ascending : ∀ n ∈ plan.waves.flatten, (plan.prerequisitesOf n).Pairwise (· < ·)
  mem_prerequisitesOf : ∀ n ∈ plan.waves.flatten, ∀ m,
    m ∈ plan.prerequisitesOf n ↔ m < g.size ∧ ⟨g.idAt m, g.idAt n⟩ ∈ g.edges
  ends : ∀ e ∈ g.edges, g.contains e.prerequisite = true ∧ g.contains e.dependent = true

theorem lookup_map_pair {ν : Type} (f : Nat → ν) {n : Nat} :
    ∀ {l : List Nat}, n ∈ l → (l.map fun n => (n, f n)).lookup n = some (f n)
  | a :: l, h => by
    rw [List.map_cons, List.lookup_cons]
    by_cases ha : n = a
    · subst ha
      simp
    · have hl : n ∈ l := (List.mem_cons.1 h).resolve_left ha
      rw [beq_eq_false_iff_ne.2 ha]
      exact lookup_map_pair f hl

namespace Selection

/-- The plan that waves of selected places make. -/
def planOf (s : Selection) (waves : List (List Nat)) : Plan :=
  ⟨waves, s.places.map fun n => (n, s.places.filter (sources s.edges n).contains)⟩

/-- Every plan is made of the waves that are peeled off what is selected. -/
theorem of_plan {β : Type} {g : Graph β} {root : Option BuilderId} {plan : Plan}
    (h : g.plan root = .ok plan) : ∃ s waves, g.select root = .ok s ∧
      peel s.edges s.places.length s.counters = .ok waves ∧ plan = s.planOf waves := by
  obtain ⟨s, hs, h⟩ := ok_of_bind h
  dsimp only at h
  cases hcycle : s.cycle? with
  | some n => rw [hcycle] at h; cases h
  | none =>
    rw [hcycle] at h
    cases hwaves : peel s.edges s.places.length s.counters with
    | error n => rw [hwaves] at h; cases h
    | ok waves =>
      rw [hwaves] at h
      cases h
      exact ⟨s, waves, hs, hwaves, rfl⟩

end Selection

theorem sound_of_plan {β : Type} {g : Graph β} {root : Option BuilderId} {plan : Plan}
    (h : g.plan root = .ok plan) : plan.Sound g := by
  obtain ⟨s, waves, hs, hwaves, rfl⟩ := Selection.of_plan h
  have hsound := Selection.sound_of_select hs
  obtain ⟨hlayers, hperm⟩ := Selection.layers_of_peel hsound.waiting hwaves
  rw [Selection.map_counters] at hperm
  have hof : ∀ n ∈ waves.flatten, (s.planOf waves).prerequisitesOf n =
      s.places.filter (Selection.sources s.edges n).contains := fun n hn => by
    unfold Plan.prerequisitesOf Selection.planOf
    rw [lookup_map_pair (fun n => s.places.filter (Selection.sources s.edges n).contains)
      (hperm.mem_iff.1 hn)]
    rfl
  have hmem (n m : Nat) : m ∈ s.places.filter (Selection.sources s.edges n).contains ↔
      m ∈ s.places ∧ (m, n) ∈ s.edges := by
    rw [List.mem_filter, List.contains_iff_mem, Selection.mem_sources]
  refine ⟨fun n hn => hsound.lt n (hperm.mem_iff.1 hn), ?_, ?_, ?_, hsound.ends⟩
  · refine hlayers.congr ?_
    intro n hn m hm
    rw [hof n hn, hmem] at hm
    exact Selection.mem_sources.2 hm.2
  · intro n hn
    rw [hof n hn]
    exact hsound.ascending.filter _
  · intro n hn m
    have hplace := hperm.mem_iff.1 hn
    rw [hof n hn, hmem, hsound.mem_edges n hplace]
    refine ⟨fun h => h.2, fun h => ⟨?_, h⟩⟩
    exact hsound.closed n hplace m
      (Selection.mem_sources.2 ((hsound.mem_edges n hplace m).2 h))

end Rebuild
