import Rebuild.Proofs.Build.Determinism

/-!
# Builders that end as settled

If it is settled how every builder ends, whatever the world is like, the plan leaves
nothing open: every wave has one ledger that is due.

* `dueFate`, `Settled.eq_of_endsAs`: the ledgers of a plan are determined.
* `Settled.snoc`, `Settled.not_heldBack`: a wave more, and waves before one that is run.
* `Settled.runs_eq_filter`: builders run in the order of the waves.
-/
namespace Rebuild

/-! ## Ledgers of builders that end as settled -/

/-- Runs end as settled. -/
def Ledger.EndsAs (l : Ledger) (ends : Nat → Except RunFailure Outputs) : Prop :=
  ∀ n result, (n, Fate.ran result) ∈ l → result = ends n

section EndsAs

variable {plan : Plan} {failFast : Bool} {ends : Nat → Except RunFailure Outputs}

/-- The fate that is due to a builder. -/
def dueFate (plan : Plan) (ends : Nat → Except RunFailure Outputs) (lost : Nat → Bool)
    (stopped : Bool) (n : Nat) : Fate :=
  match (plan.prerequisitesOf n).find? lost with
  | some p => .skipped p
  | none => if stopped then .heldBack else .ran (ends n)

theorem Due.eq_dueFate {lost : Nat → Bool} {stopped : Bool} {n : Nat} {fate : Fate}
    (h : Due plan lost stopped (n, fate)) (hends : ∀ result, fate = .ran result → result = ends n) :
    fate = dueFate plan ends lost stopped n := by
  unfold dueFate
  cases fate with
  | skipped p =>
    have hfind : (plan.prerequisitesOf n).find? lost = some p := h
    rw [hfind]
  | heldBack =>
    rw [h.1, h.2]
    rfl
  | ran result =>
    rw [h.1, h.2, hends result rfl]
    rfl

theorem eq_map_dueFate {lost : Nat → Bool} {stopped : Bool} {l : Ledger}
    (hdue : ∀ e ∈ l, Due plan lost stopped e) (hends : l.EndsAs ends) :
    l = (l.map Prod.fst).map fun n => (n, dueFate plan ends lost stopped n) := by
  rw [List.map_map]
  refine (List.map_id l).symm.trans (List.map_congr_left fun e he => ?_)
  refine Prod.ext rfl ((hdue e he).eq_dueFate fun result hran => hends e.1 result ?_)
  rw [← hran]
  exact he

theorem Settled.eq_of_endsAs : ∀ {waves : List (List Nat)} {earlier : Ledger}
    {ledgers ledgers' : List Ledger}, Settled plan failFast earlier waves ledgers →
    Settled plan failFast earlier waves ledgers' → Ledger.EndsAs ledgers.flatten ends →
    Ledger.EndsAs ledgers'.flatten ends → ledgers = ledgers'
  | [], _, [], [], _, _, _, _ => rfl
  | wave :: rest, earlier, l :: ledgers, l' :: ledgers', ⟨hkeys, hdue, hrest⟩,
      ⟨hkeys', hdue', hrest'⟩, hends, hends' => by
    have hl : l = l' := by
      rw [eq_map_dueFate hdue fun n r he => hends n r (List.mem_append_left _ he),
        eq_map_dueFate hdue' fun n r he => hends' n r (List.mem_append_left _ he), hkeys, hkeys']
    subst hl
    rw [hrest.eq_of_endsAs hrest' (fun n r he => hends n r (List.mem_append_right _ he))
      fun n r he => hends' n r (List.mem_append_right _ he)]
  | [], _, _ :: _, _, h, _, _, _ => h.elim
  | [], _, [], _ :: _, _, h, _, _ => h.elim
  | _ :: _, _, [], _, h, _, _, _ => h.elim
  | _ :: _, _, _ :: _, [], _, h, _, _ => h.elim

theorem Settled.snoc {wave : List Nat} {l : Ledger} : ∀ {waves : List (List Nat)}
    {earlier : Ledger} {ledgers : List Ledger}, Settled plan failFast earlier waves ledgers →
    l.map Prod.fst = arranged plan (Ledger.lost (earlier ++ ledgers.flatten)) wave →
    (∀ e ∈ l, Due plan (Ledger.lost (earlier ++ ledgers.flatten))
      (failFast && Ledger.someFailed (earlier ++ ledgers.flatten)) e) →
    Settled plan failFast earlier (waves ++ [wave]) (ledgers ++ [l])
  | [], earlier, [], _, hkeys, hdue => by
    rw [List.flatten_nil, List.append_nil] at hkeys hdue
    exact ⟨hkeys, hdue, trivial⟩
  | _ :: _, earlier, first :: ledgers, ⟨hfirst, hduefirst, hrest⟩, hkeys, hdue => by
    rw [List.flatten_cons, ← List.append_assoc] at hkeys hdue
    exact ⟨hfirst, hduefirst, hrest.snoc hkeys hdue⟩
  | [], _, _ :: _, h, _, _ => h.elim
  | _ :: _, _, [], h, _, _ => h.elim

/-- As long as a build has not been stopped, nobody is held back. -/
theorem Settled.not_heldBack : ∀ {waves : List (List Nat)} {earlier : Ledger}
    {ledgers : List Ledger}, Settled plan failFast earlier waves ledgers →
    (failFast && Ledger.someFailed (earlier ++ ledgers.flatten)) = false →
    ∀ n, (n, Fate.heldBack) ∉ ledgers.flatten
  | [], _, [], _, _, _ => List.not_mem_nil
  | _ :: _, earlier, l :: ledgers, ⟨_, hdue, hrest⟩, hgoing, n => by
    rw [List.flatten_cons, ← List.append_assoc] at hgoing
    rw [List.flatten_cons, List.mem_append, not_or]
    refine ⟨fun he => ?_, hrest.not_heldBack hgoing n⟩
    have hstopped : (failFast && Ledger.someFailed earlier) = true := (hdue _ he).2
    rw [Bool.and_eq_true] at hstopped
    unfold Ledger.someFailed at hgoing hstopped
    rw [List.any_append, List.any_append, hstopped.1, hstopped.2] at hgoing
    cases hgoing
  | [], _, _ :: _, h, _, _ => h.elim
  | _ :: _, _, [], h, _, _ => h.elim

theorem Ledger.map_runs_eq_filter {ran : Nat → Bool} : ∀ {l : Ledger},
    (∀ n fate, (n, fate) ∈ l → (ran n = true ↔ ∃ result, fate = Fate.ran result)) →
    l.runs.map Prod.fst = (l.map Prod.fst).filter ran
  | [], _ => rfl
  | (n, fate) :: l, hran => by
    have ih := map_runs_eq_filter fun m fate he => hran m fate (List.mem_cons_of_mem _ he)
    have hhead := hran n fate List.mem_cons_self
    rw [List.map_cons, List.filter_cons, ← ih]
    cases fate with
    | ran result =>
      rw [if_pos (hhead.2 ⟨result, rfl⟩)]
      rfl
    | skipped p =>
      rw [if_neg (fun h => by obtain ⟨result, hr⟩ := hhead.1 h; cases hr)]
      rfl
    | heldBack =>
      rw [if_neg (fun h => by obtain ⟨result, hr⟩ := hhead.1 h; cases hr)]
      rfl

/-- Builders run in the order of the waves. -/
theorem Settled.runs_eq_filter {ran : Nat → Bool} : ∀ {waves : List (List Nat)}
    {earlier : Ledger} {ledgers : List Ledger}, Settled plan failFast earlier waves ledgers →
    (∀ n fate, (n, fate) ∈ ledgers.flatten →
      (ran n = true ↔ ∃ result, fate = Fate.ran result)) →
    (Ledger.runs ledgers.flatten).map Prod.fst = waves.flatten.filter ran
  | [], _, [], _, _ => rfl
  | wave :: rest, earlier, l :: ledgers, ⟨hkeys, hdue, hrest⟩, hran => by
    have ih := hrest.runs_eq_filter fun n fate he => hran n fate (List.mem_append_right _ he)
    have hl (n : Nat) (fate : Fate) (he : (n, fate) ∈ l) := hran n fate (List.mem_append_left _ he)
    rw [List.flatten_cons, List.flatten_cons, Ledger.runs_append, List.map_append, ih,
      List.filter_append]
    congr 1
    -- whoever runs has no lost prerequisite
    have hkept : ∀ n ∈ wave, ran n = true →
        ((plan.prerequisitesOf n).find? earlier.lost).isNone = true := by
      intro n hn htrue
      obtain ⟨⟨m, fate⟩, he, rfl⟩ : ∃ e ∈ l, e.1 = n :=
        List.mem_map.1 (hkeys ▸ (perm_arranged plan _ wave).mem_iff.2 hn)
      obtain ⟨result, rfl⟩ := (hl m fate he).1 htrue
      rw [(hdue _ he).1]
      rfl
    rw [Ledger.map_runs_eq_filter hl, hkeys]
    unfold arranged
    rw [List.filter_append, List.filter_filter, List.filter_filter]
    have hnone : wave.filter (fun n => ran n &&
        !((plan.prerequisitesOf n).find? earlier.lost).isNone) = [] := by
      refine List.filter_eq_nil_iff.2 fun n hn => ?_
      cases h : ran n with
      | false => simp
      | true => simp [hkept n hn h]
    rw [hnone, List.nil_append]
    refine List.filter_congr fun n hn => ?_
    cases h : ran n with
    | false => rfl
    | true => simp [hkept n hn h]
  | [], _, _ :: _, h, _ => h.elim
  | _ :: _, _, [], h, _ => h.elim

end EndsAs

theorem Layers.mem_before {needs : Nat → List Nat} {wave : List Nat} {rest : List (List Nat)} :
    ∀ {waves : List (List Nat)} {earlier : List Nat}, Layers needs earlier (waves ++ wave :: rest) →
      ∀ n ∈ wave, ∀ m ∈ needs n, m ∈ earlier ∨ m ∈ waves.flatten
  | [], _, ⟨_, hwave, _⟩, n, hn, m, hm => .inl ((hwave n hn).2 m hm)
  | first :: waves, earlier, ⟨_, _, hrest⟩, n, hn, m, hm => by
    rw [List.flatten_cons, List.mem_append]
    rcases hrest.mem_before n hn m hm with h | h
    · exact (List.mem_append.1 h).elim (.inr ∘ .inl) .inl
    · exact .inr (.inr h)

end Rebuild
