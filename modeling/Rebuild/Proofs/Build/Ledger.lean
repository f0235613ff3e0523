import Rebuild.Build.Run
import Rebuild.Proofs.Graph.Waves

/-!
# Ledgers

What became of the builders of a run, entry by entry. A report is a ledger read
from the first entry to the last.

* `Fate`, `Ledger`: what became of the builders.
* `Ledger.report`: what is reported of a ledger, and `accounts_report`: nobody is
  lost or counted twice.
* `Due`, `Settled`: what the fates of a wave must be, given those of earlier ones.
* `Settled.skipped_iff`: who is skipped is decided by who failed further up, not
  just one step up.
-/
namespace Rebuild

/-! ## Ledgers -/

/-- What becomes of a planned builder. -/
inductive Fate where
  | ran (result : Except RunFailure Outputs)
  /-- Skipped, with the place of its first lost prerequisite. -/
  | skipped (prerequisite : Nat)
  | heldBack

/-- The builder ran, and its run failed. -/
def Fate.isFailed : Fate → Bool
  | ran (.error _) => true
  | _ => false

/-- The builder failed or was skipped. -/
def Fate.isLost : Fate → Bool
  | skipped _ => true
  | fate => fate.isFailed

/-- Places and what became of the builders there, the earliest first. -/
abbrev Ledger := List (Nat × Fate)

namespace Ledger

/-- The builder at a place failed or was skipped. -/
def lost (l : Ledger) (n : Nat) : Bool := l.any fun e => e.1 == n && e.2.isLost

/-- Some builder failed. -/
def someFailed (l : Ledger) : Bool := l.any fun e => e.2.isFailed

/-- The runs of builders. -/
def runs (l : Ledger) : List (Nat × Except RunFailure Outputs) :=
  l.filterMap fun
    | (n, .ran result) => some (n, result)
    | _ => none

theorem lost_append (l m : Ledger) (n : Nat) : (l ++ m).lost n = (l.lost n || m.lost n) :=
  List.any_append ..

theorem runs_append (l m : Ledger) : (l ++ m).runs = l.runs ++ m.runs := List.filterMap_append ..

theorem lost_iff {l : Ledger} {n : Nat} :
    l.lost n = true ↔ ∃ fate, (n, fate) ∈ l ∧ fate.isLost = true := by
  unfold lost
  rw [List.any_eq_true]
  constructor
  · intro ⟨⟨m, fate⟩, he, h⟩
    obtain ⟨hm, hfate⟩ := Bool.and_eq_true_iff.1 h
    cases beq_iff_eq.1 hm
    exact ⟨fate, he, hfate⟩
  · intro ⟨fate, he, hfate⟩
    exact ⟨(n, fate), he, by simp [hfate]⟩

theorem mem_runs {l : Ledger} {n : Nat} {result : Except RunFailure Outputs} :
    (n, result) ∈ l.runs ↔ (n, Fate.ran result) ∈ l := by
  unfold runs
  rw [List.mem_filterMap]
  constructor
  · intro ⟨⟨m, fate⟩, he, h⟩
    cases fate with
    | ran r => cases h; exact he
    | _ => cases h
  · intro he
    exact ⟨_, he, rfl⟩

theorem runs_sublist : ∀ l : Ledger, (l.runs.map Prod.fst).Sublist (l.map Prod.fst)
  | [] => .slnil
  | (n, .ran _) :: l => (runs_sublist l).cons_cons n
  | (n, .skipped _) :: l => (runs_sublist l).cons n
  | (n, .heldBack) :: l => (runs_sublist l).cons n

end Ledger

/-- The error of a builder whose run failed. -/
def RunFailure.error (id : BuilderId) : RunFailure → BuildError
  | failed cause => .failed id cause
  | panicked => .panicked id

section Entering

variable {β : Type} (g : Graph β)

/-- Reports what became of one more builder. -/
def Report.enter (r : Report) : Nat × Fate → Report
  | (n, .ran (.ok outputs)) => { r with
    results := r.results.insert (g.idAt n) outputs
    executed := r.executed ++ [g.idAt n] }
  | (n, .ran (.error failure)) => { r with failed := r.failed ++ [failure.error (g.idAt n)] }
  | (n, .skipped p) => { r with skipped := r.skipped ++ [⟨g.idAt n, g.idAt p⟩] }
  | (n, .heldBack) => { r with notStarted := r.notStarted ++ [g.idAt n] }

/-- What is reported of a ledger. -/
def Ledger.report (l : Ledger) : Report := l.foldl (Report.enter g) {}

theorem Ledger.report_append (l m : Ledger) :
    (l ++ m).report g = m.foldl (Report.enter g) (l.report g) := List.foldl_append ..

theorem isEmpty_failed_foldl : ∀ (l : Ledger) (r : Report),
    (l.foldl (Report.enter g) r).failed.isEmpty = (r.failed.isEmpty && !l.someFailed)
  | [], r => by simp [Ledger.someFailed]
  | (n, fate) :: l, r => by
    have hcons : Ledger.someFailed ((n, fate) :: l) = (fate.isFailed || Ledger.someFailed l) := rfl
    rw [List.foldl_cons, isEmpty_failed_foldl l, hcons]
    cases fate with
    | ran result => cases result <;> simp [Report.enter, Fate.isFailed]
    | skipped p => simp [Report.enter, Fate.isFailed]
    | heldBack => simp [Report.enter, Fate.isFailed]

/-! ## Reports of ledgers -/

/-- A list that grows at its end with every entry is put together from what the entries add. -/
theorem foldl_enter_of_append {α : Type} (part : Report → List α)
    (hpart : ∀ r e, part (Report.enter g r e) = part r ++ part (Report.enter g {} e)) :
    ∀ (l : Ledger) (r : Report),
      part (l.foldl (Report.enter g) r) = part r ++ l.flatMap fun e => part (Report.enter g {} e)
  | [], r => by simp
  | e :: l, r => by
    rw [List.foldl_cons, foldl_enter_of_append part hpart l, hpart, List.flatMap_cons,
      List.append_assoc]

theorem mem_executed {l : Ledger} {id : BuilderId} :
    id ∈ (l.report g).executed ↔
      ∃ n outputs, (n, Fate.ran (.ok outputs)) ∈ l ∧ g.idAt n = id := by
  unfold Ledger.report
  rw [foldl_enter_of_append g Report.executed]
  · simp only [List.nil_append, List.mem_flatMap]
    constructor
    · intro ⟨⟨n, fate⟩, he, hid⟩
      rcases fate with (failure | outputs) | p | _ <;> simp [Report.enter] at hid
      exact ⟨n, outputs, he, hid.symm⟩
    · rintro ⟨n, outputs, he, rfl⟩
      exact ⟨_, he, by simp [Report.enter]⟩
  · rintro r ⟨n, (failure | outputs) | p | _⟩ <;> simp [Report.enter]

theorem mem_failed {l : Ledger} {error : BuildError} :
    error ∈ (l.report g).failed ↔
      ∃ n failure, (n, Fate.ran (.error failure)) ∈ l ∧ failure.error (g.idAt n) = error := by
  unfold Ledger.report
  rw [foldl_enter_of_append g Report.failed]
  · simp only [List.nil_append, List.mem_flatMap]
    constructor
    · intro ⟨⟨n, fate⟩, he, hid⟩
      rcases fate with (failure | outputs) | p | _ <;> simp [Report.enter] at hid
      exact ⟨n, failure, he, hid.symm⟩
    · rintro ⟨n, failure, he, rfl⟩
      exact ⟨_, he, by simp [Report.enter]⟩
  · rintro r ⟨n, (failure | outputs) | p | _⟩ <;> simp [Report.enter]

theorem mem_skipped {l : Ledger} {s : Skipped} :
    s ∈ (l.report g).skipped ↔
      ∃ n p, (n, Fate.skipped p) ∈ l ∧ s = ⟨g.idAt n, g.idAt p⟩ := by
  unfold Ledger.report
  rw [foldl_enter_of_append g Report.skipped]
  · simp only [List.nil_append, List.mem_flatMap]
    constructor
    · intro ⟨⟨n, fate⟩, he, hid⟩
      rcases fate with (failure | outputs) | p | _ <;> simp [Report.enter] at hid
      exact ⟨n, p, he, hid⟩
    · rintro ⟨n, p, he, rfl⟩
      exact ⟨_, he, by simp [Report.enter]⟩
  · rintro r ⟨n, (failure | outputs) | p | _⟩ <;> simp [Report.enter]

theorem mem_notStarted {l : Ledger} {id : BuilderId} :
    id ∈ (l.report g).notStarted ↔ ∃ n, (n, Fate.heldBack) ∈ l ∧ g.idAt n = id := by
  unfold Ledger.report
  rw [foldl_enter_of_append g Report.notStarted]
  · simp only [List.nil_append, List.mem_flatMap]
    constructor
    · intro ⟨⟨n, fate⟩, he, hid⟩
      rcases fate with (failure | outputs) | p | _ <;> simp [Report.enter] at hid
      exact ⟨n, he, hid.symm⟩
    · rintro ⟨n, he, rfl⟩
      exact ⟨_, he, by simp [Report.enter]⟩
  · rintro r ⟨n, (failure | outputs) | p | _⟩ <;> simp [Report.enter]

theorem get?_results_foldl : ∀ {l : Ledger} {r : Report},
    (l.map fun e => g.idAt e.1).Nodup → (∀ e ∈ l, r.results.get? (g.idAt e.1) = none) →
    ∀ id outputs, (l.foldl (Report.enter g) r).results.get? id = some outputs ↔
      r.results.get? id = some outputs ∨
        ∃ n, (n, Fate.ran (.ok outputs)) ∈ l ∧ g.idAt n = id
  | [], r, _, _, id, outputs => by simp
  | (m, fate) :: l, r, hnodup, hfresh, id, outputs => by
    rw [List.map_cons, List.nodup_cons] at hnodup
    obtain ⟨hm, hnodup⟩ := hnodup
    have hother : ∀ e ∈ l, g.idAt e.1 ≠ g.idAt m := fun e he heq =>
      hm (List.mem_map.2 ⟨e, he, heq⟩)
    have hm0 : r.results.get? (g.idAt m) = none := hfresh (m, fate) (by simp)
    have hl : ∀ e ∈ l, r.results.get? (g.idAt e.1) = none := fun e he =>
      hfresh e (List.mem_cons_of_mem _ he)
    rw [List.foldl_cons]
    rcases fate with (failure | made) | p | _
    case ran.ok =>
      have hfresh' : ∀ e ∈ l, (Report.enter g r (m, .ran (.ok made))).results.get? (g.idAt e.1) =
          none := fun e he => by
        show (r.results.insert (g.idAt m) made).get? _ = none
        rw [SortedMap.get?_insert_of_ne (hother e he), hl e he]
      rw [get?_results_foldl hnodup hfresh']
      show (r.results.insert (g.idAt m) made).get? id = some outputs ∨ _ ↔ _
      by_cases hid : id = g.idAt m
      · subst hid
        rw [SortedMap.get?_insert_self, hm0]
        constructor
        · rintro (h | ⟨n, hn, heq⟩)
          · cases h
            exact .inr ⟨m, List.mem_cons_self, rfl⟩
          · exact absurd heq (hother _ hn)
        · rintro (h | ⟨n, hn, heq⟩)
          · cases h
          · rcases List.mem_cons.1 hn with hn | hn
            · cases hn
              exact .inl rfl
            · exact absurd heq (hother _ hn)
      · rw [SortedMap.get?_insert_of_ne hid]
        refine or_congr_right (exists_congr ?_)
        intro n
        rw [List.mem_cons]
        refine ⟨fun h => ⟨.inr h.1, h.2⟩, fun h => ⟨h.1.resolve_left fun heq => ?_, h.2⟩⟩
        cases heq
        exact hid h.2.symm
    case ran.error =>
      refine (get?_results_foldl (r := r.enter g (m, .ran (.error failure))) hnodup hl id
        outputs).trans ?_
      simp [Report.enter]
    case skipped =>
      refine (get?_results_foldl (r := r.enter g (m, .skipped p)) hnodup hl id outputs).trans ?_
      simp [Report.enter]
    case heldBack =>
      refine (get?_results_foldl (r := r.enter g (m, .heldBack)) hnodup hl id outputs).trans ?_
      simp [Report.enter]

theorem get?_results {l : Ledger} (hnodup : (l.map fun e => g.idAt e.1).Nodup) (id : BuilderId)
    (outputs : Outputs) : (l.report g).results.get? id = some outputs ↔
      ∃ n, (n, Fate.ran (.ok outputs)) ∈ l ∧ g.idAt n = id := by
  unfold Ledger.report
  rw [get?_results_foldl g hnodup fun _ _ => rfl]
  simp

/-- The builder that an error is about. -/
def BuildError.builder? : BuildError → Option BuilderId
  | failed id _ => some id
  | panicked id => some id
  | _ => none

theorem builder?_error (failure : RunFailure) (id : BuilderId) :
    (failure.error id).builder? = some id := by
  cases failure <;> rfl

/-- Everybody that a report names in one of its lists. -/
def Report.accounts (r : Report) : List (Option BuilderId) :=
  r.executed.map some ++ r.failed.map BuildError.builder? ++
    r.skipped.map (fun s => some s.builder) ++ r.notStarted.map some

theorem accounts_foldl : ∀ (l : Ledger) (r : Report),
    (l.foldl (Report.enter g) r).accounts.Perm
      (r.accounts ++ l.map fun e => some (g.idAt e.1))
  | [], r => by simp
  | (n, fate) :: l, r => by
    have henter : (Report.enter g r (n, fate)).accounts.Perm (r.accounts ++ [some (g.idAt n)]) := by
      refine List.perm_iff_count.2 ?_
      intro a
      rcases fate with (failure | outputs) | p | _ <;>
        simp [Report.accounts, Report.enter, List.count_append, List.count_cons, builder?_error] <;>
        omega
    rw [List.foldl_cons, List.map_cons]
    refine (accounts_foldl l _).trans ((henter.append_right _).trans ?_)
    rw [List.append_assoc, List.singleton_append]

theorem accounts_report (l : Ledger) :
    (l.report g).accounts.Perm (l.map fun e => some (g.idAt e.1)) := accounts_foldl g l {}

end Entering

/-! ## What is due -/

theorem find?_congr_of_mem {α : Type} {p q : α → Bool} :
    ∀ {l : List α}, (∀ a ∈ l, p a = q a) → l.find? p = l.find? q
  | [], _ => rfl
  | a :: l, h => by
    rw [List.find?_cons, List.find?_cons, h a List.mem_cons_self,
      find?_congr_of_mem fun b hb => h b (List.mem_cons_of_mem _ hb)]

/-- What the fate of a builder must be, given who is lost and whether the run has been stopped. -/
def Due (plan : Plan) (lost : Nat → Bool) (stopped : Bool) : Nat × Fate → Prop
  | (n, .skipped p) => (plan.prerequisitesOf n).find? lost = some p
  | (n, .heldBack) => (plan.prerequisitesOf n).find? lost = none ∧ stopped = true
  | (n, .ran _) => (plan.prerequisitesOf n).find? lost = none ∧ stopped = false

/-- The builders of a wave in the order of their entries: those with a lost prerequisite first. -/
def arranged (plan : Plan) (lost : Nat → Bool) (wave : List Nat) : List Nat :=
  wave.filter (fun n => !((plan.prerequisitesOf n).find? lost).isNone) ++
    wave.filter fun n => ((plan.prerequisitesOf n).find? lost).isNone

theorem perm_arranged (plan : Plan) (lost : Nat → Bool) (wave : List Nat) :
    (arranged plan lost wave).Perm wave :=
  List.perm_append_comm.trans (List.filter_append_perm _ wave)

/-- Every wave has a ledger of what is due. -/
def Settled (plan : Plan) (failFast : Bool) : (earlier : Ledger) → (waves : List (List Nat)) →
    (ledgers : List Ledger) → Prop
  | _, [], [] => True
  | earlier, wave :: rest, l :: ledgers =>
    l.map Prod.fst = arranged plan earlier.lost wave ∧
      (∀ e ∈ l, Due plan earlier.lost (failFast && earlier.someFailed) e) ∧
      Settled plan failFast (earlier ++ l) rest ledgers
  | _, _, _ => False

namespace Settled

variable {plan : Plan} {failFast : Bool} {earlier : Ledger} {waves : List (List Nat)}
  {ledgers : List Ledger}

theorem perm : ∀ {waves : List (List Nat)} {earlier : Ledger} {ledgers : List Ledger},
    Settled plan failFast earlier waves ledgers →
    (ledgers.flatten.map Prod.fst).Perm waves.flatten
  | [], _, [], _ => .nil
  | wave :: rest, _, l :: ledgers, ⟨hkeys, _, hrest⟩ => by
    rw [List.flatten_cons, List.flatten_cons, List.map_append, hkeys]
    exact (perm_arranged plan _ wave).append hrest.perm
  | [], _, _ :: _, h => h.elim
  | _ :: _, _, [], h => h.elim

theorem exists_ledger : ∀ {waves : List (List Nat)} {earlier : Ledger} {ledgers : List Ledger},
    Settled plan failFast earlier waves ledgers → ∀ {i : Nat} {wave : List Nat},
    waves[i]? = some wave → ∃ l, ledgers[i]? = some l ∧ (l.map Prod.fst).Perm wave
  | [], _, [], _, i, wave, hi => by cases hi
  | wave :: rest, _, l :: ledgers, ⟨hkeys, _, hrest⟩, 0, _, hi => by
    cases hi
    exact ⟨l, rfl, hkeys ▸ perm_arranged plan _ wave⟩
  | _ :: rest, _, _ :: ledgers, ⟨_, _, hrest⟩, i + 1, wave, hi => exists_ledger hrest (i := i) hi
  | [], _, _ :: _, h, _, _, _ => h.elim
  | _ :: _, _, [], h, _, _, _ => h.elim

/-- Everywhere in the ledgers stands what is due, and what it depends on stands earlier. -/
theorem due_at : ∀ {waves : List (List Nat)} {earlier : Ledger} {ledgers : List Ledger},
    Settled plan failFast earlier waves ledgers →
    Layers plan.prerequisitesOf (earlier.map Prod.fst) waves →
    ∀ {i : Nat} {l : Ledger}, ledgers[i]? = some l →
      (∃ wave, waves[i]? = some wave ∧ (l.map Prod.fst).Perm wave) ∧
      ∀ e ∈ l, Due plan (Ledger.lost (earlier ++ (ledgers.take i).flatten))
          (failFast && Ledger.someFailed (earlier ++ (ledgers.take i).flatten)) e ∧
        ∀ m ∈ plan.prerequisitesOf e.1, m ∈ (earlier ++ (ledgers.take i).flatten).map Prod.fst
  | [], _, [], _, _, i, l, hi => by cases hi
  | wave :: rest, earlier, l :: ledgers, ⟨hkeys, hdue, _⟩, ⟨_, hwave, _⟩, 0, _, hi => by
    cases hi
    have hperm : (l.map Prod.fst).Perm wave := hkeys ▸ perm_arranged plan _ wave
    refine ⟨⟨wave, rfl, hperm⟩, ?_⟩
    intro e he
    rw [List.take_zero, List.flatten_nil, List.append_nil]
    have hmem : e.1 ∈ wave := hperm.mem_iff.1 (List.mem_map.2 ⟨e, he, rfl⟩)
    exact ⟨hdue e he, (hwave e.1 hmem).2⟩
  | wave :: rest, earlier, l :: ledgers, ⟨hkeys, _, hrest⟩, ⟨_, _, hlayers⟩, i + 1, l', hi => by
    have hperm : (l.map Prod.fst).Perm wave := hkeys ▸ perm_arranged plan _ wave
    have hlayers' : Layers plan.prerequisitesOf ((earlier ++ l).map Prod.fst) rest := by
      refine hlayers.congr_earlier ?_
      intro n
      rw [List.map_append, List.mem_append, List.mem_append, hperm.mem_iff]
      exact or_comm
    have := due_at hrest hlayers' (i := i) hi
    rw [List.append_assoc] at this
    exact this
  | [], _, _ :: _, h, _, _, _, _ => h.elim
  | _ :: _, _, [], h, _, _, _, _ => h.elim

/-! ## Planned builders -/

variable {β : Type} {g : Graph β} {n m : Nat} {fate : Fate}

theorem nodup_keys (h : Settled plan failFast [] plan.waves ledgers) (hplan : plan.Sound g) :
    (ledgers.flatten.map Prod.fst).Nodup :=
  h.perm.symm.nodup hplan.layers.nodup_flatten.1

theorem fate_unique (h : Settled plan failFast [] plan.waves ledgers) (hplan : plan.Sound g)
    {fate' : Fate} (he : (n, fate) ∈ ledgers.flatten) (he' : (n, fate') ∈ ledgers.flatten) :
    fate = fate' := by
  obtain ⟨i, hi⟩ := List.mem_iff_getElem?.1 he
  obtain ⟨j, hj⟩ := List.mem_iff_getElem?.1 he'
  have hi' : (ledgers.flatten.map Prod.fst)[i]? = some n := by rw [List.getElem?_map, hi]; rfl
  have hj' : (ledgers.flatten.map Prod.fst)[j]? = some n := by rw [List.getElem?_map, hj]; rfl
  have hlt := (List.getElem?_eq_some_iff.1 hi').1
  have hij : i = j := (List.getElem?_inj hlt (h.nodup_keys hplan)).1 (hi'.trans hj'.symm)
  subst hij
  rw [hi] at hj
  cases hj
  rfl

theorem exists_fate (h : Settled plan failFast [] plan.waves ledgers)
    (hn : n ∈ plan.waves.flatten) : ∃ fate, (n, fate) ∈ ledgers.flatten := by
  obtain ⟨⟨m, fate⟩, he, rfl⟩ := List.mem_map.1 (h.perm.mem_iff.2 hn)
  exact ⟨fate, he⟩

theorem planned (h : Settled plan failFast [] plan.waves ledgers)
    (he : (n, fate) ∈ ledgers.flatten) : n ∈ plan.waves.flatten :=
  h.perm.mem_iff.1 (List.mem_map.2 ⟨_, he, rfl⟩)

theorem lost_take (h : Settled plan failFast [] plan.waves ledgers) (hplan : plan.Sound g) {i : Nat}
    (hm : m ∈ (ledgers.take i).flatten.map Prod.fst) :
    Ledger.lost (ledgers.take i).flatten m = Ledger.lost ledgers.flatten m := by
  have hsplit : ledgers.flatten = (ledgers.take i).flatten ++ (ledgers.drop i).flatten := by
    rw [← List.flatten_append, List.take_append_drop]
  have hnodup := h.nodup_keys hplan
  rw [hsplit, List.map_append, List.nodup_append] at hnodup
  rw [hsplit, Ledger.lost_append]
  have hlater : Ledger.lost (ledgers.drop i).flatten m = false := by
    refine Bool.eq_false_iff.2 ?_
    intro hlost
    obtain ⟨fate, he, -⟩ := Ledger.lost_iff.1 hlost
    exact hnodup.2.2 m hm m (List.mem_map.2 ⟨_, he, rfl⟩) rfl
  rw [hlater, Bool.or_false]

/-- What is due to a builder can be told from the whole ledger, but for whether a wave is held
back. -/
theorem due (h : Settled plan failFast [] plan.waves ledgers) (hplan : plan.Sound g) {i : Nat}
    {l : Ledger} (hi : ledgers[i]? = some l) {e : Nat × Fate} (he : e ∈ l) :
    Due plan (Ledger.lost ledgers.flatten)
      (failFast && Ledger.someFailed (ledgers.take i).flatten) e := by
  obtain ⟨hdue, hearlier⟩ := (h.due_at hplan.layers hi).2 e he
  rw [List.nil_append] at hdue hearlier
  have hfind : (plan.prerequisitesOf e.1).find? (Ledger.lost (ledgers.take i).flatten) =
      (plan.prerequisitesOf e.1).find? (Ledger.lost ledgers.flatten) :=
    find?_congr_of_mem fun m hm => h.lost_take hplan (hearlier m hm)
  obtain ⟨n, fate⟩ := e
  cases fate with
  | skipped p => exact hfind.symm.trans hdue
  | heldBack => exact ⟨hfind.symm.trans hdue.1, hdue.2⟩
  | ran result => exact ⟨hfind.symm.trans hdue.1, hdue.2⟩

theorem find?_of_mem (h : Settled plan failFast [] plan.waves ledgers) (hplan : plan.Sound g)
    (he : (n, fate) ∈ ledgers.flatten) :
    (plan.prerequisitesOf n).find? (Ledger.lost ledgers.flatten) =
      match fate with
      | .skipped p => some p
      | _ => none := by
  obtain ⟨l, hl, hel⟩ := List.mem_flatten.1 he
  obtain ⟨i, hi⟩ := List.mem_iff_getElem?.1 hl
  have hdue := h.due hplan hi hel
  cases fate with
  | skipped p => exact hdue
  | heldBack => exact hdue.1
  | ran result => exact hdue.1

/-- A planned builder with a lost prerequisite is skipped. -/
theorem skipped_of_lost (h : Settled plan failFast [] plan.waves ledgers) (hplan : plan.Sound g)
    (hn : n ∈ plan.waves.flatten) (hm : m ∈ plan.prerequisitesOf n)
    (hlost : Ledger.lost ledgers.flatten m = true) :
    ∃ p, (n, Fate.skipped p) ∈ ledgers.flatten := by
  obtain ⟨fate, he⟩ := h.exists_fate hn
  have hfind := h.find?_of_mem hplan he
  cases fate with
  | skipped p => exact ⟨p, he⟩
  | heldBack => exact absurd hlost (List.find?_eq_none.1 hfind m hm)
  | ran result => exact absurd hlost (List.find?_eq_none.1 hfind m hm)

/-- The builder at a place failed. -/
def Failed (l : Ledger) (n : Nat) : Prop := ∃ failure, (n, Fate.ran (.error failure)) ∈ l

theorem Failed.lost {l : Ledger} (h : Failed l n) : l.lost n = true := by
  obtain ⟨failure, he⟩ := h
  exact Ledger.lost_iff.2 ⟨_, he, rfl⟩

theorem lost_iff_failed_or_skipped {l : Ledger} :
    l.lost n = true ↔ Failed l n ∨ ∃ p, (n, Fate.skipped p) ∈ l := by
  rw [Ledger.lost_iff]
  constructor
  · rintro ⟨(failure | outputs) | p | _, he, hlost⟩
    · exact .inl ⟨failure, he⟩
    · cases hlost
    · exact .inr ⟨p, he⟩
    · cases hlost
  · rintro (⟨failure, he⟩ | ⟨p, he⟩)
    · exact ⟨_, he, rfl⟩
    · exact ⟨_, he, rfl⟩

theorem exists_failed_of_skipped (h : Settled plan failFast [] plan.waves ledgers)
    (hplan : plan.Sound g) (hn : n ∈ plan.waves.flatten) :
    (∃ p, (n, Fate.skipped p) ∈ ledgers.flatten) →
      ∃ m ∈ plan.waves.flatten, Failed ledgers.flatten m ∧ g.Precedes (g.idAt m) (g.idAt n) := by
  refine hplan.layers.induction (P := fun n => (∃ p, (n, Fate.skipped p) ∈ ledgers.flatten) →
    ∃ m ∈ plan.waves.flatten, Failed ledgers.flatten m ∧ g.Precedes (g.idAt m) (g.idAt n))
    (fun n hn => nomatch hn) ?_ n hn
  intro n hn ih ⟨p, he⟩
  have hfind := h.find?_of_mem hplan he
  have hp : p ∈ plan.prerequisitesOf n := List.mem_of_find?_eq_some hfind
  have hlost := List.find?_some hfind
  have hedge := ((hplan.mem_prerequisitesOf n hn p).1 hp).2
  rcases lost_iff_failed_or_skipped.1 hlost with hfailed | hskipped
  · have hplanned : p ∈ plan.waves.flatten := by
      obtain ⟨failure, hf⟩ := hfailed
      exact h.planned hf
    exact ⟨p, hplanned, hfailed, .single hedge⟩
  · obtain ⟨m, hm, hfailed, hbefore⟩ := ih p hp hskipped
    exact ⟨m, hm, hfailed, hbefore.tail hedge⟩

theorem skipped_of_failed (h : Settled plan failFast [] plan.waves ledgers) (hplan : plan.Sound g)
    {id id' : BuilderId} (hbefore : g.Precedes id id') :
    ∀ m < g.size, g.idAt m = id → Failed ledgers.flatten m →
      ∀ n ∈ plan.waves.flatten, g.idAt n = id' → ∃ p, (n, Fate.skipped p) ∈ ledgers.flatten := by
  intro m hm hid hfailed
  induction hbefore with
  | single hedge =>
    rintro n hn rfl
    subst hid
    exact h.skipped_of_lost hplan hn ((hplan.mem_prerequisitesOf n hn m).2 ⟨hm, hedge⟩)
      hfailed.lost
  | tail _ hedge ih =>
    rintro n hn rfl
    obtain ⟨k, hk, rfl⟩ := (g.contains_iff _).1 (hplan.ends _ hedge).1
    have hkn : k ∈ plan.prerequisitesOf n := (hplan.mem_prerequisitesOf n hn k).2 ⟨hk, hedge⟩
    have hplanned : k ∈ plan.waves.flatten :=
      (hplan.layers.mem_of_needs n hn k hkn).resolve_left List.not_mem_nil
    have hlost := lost_iff_failed_or_skipped.2 (.inr (ih k hplanned rfl))
    exact h.skipped_of_lost hplan hn hkn hlost

/-- Who is skipped needs somebody who failed, and the other way round. -/
theorem skipped_iff (h : Settled plan failFast [] plan.waves ledgers) (hplan : plan.Sound g)
    (hn : n ∈ plan.waves.flatten) :
    (∃ p, (n, Fate.skipped p) ∈ ledgers.flatten) ↔
      ∃ m ∈ plan.waves.flatten, Failed ledgers.flatten m ∧ g.Precedes (g.idAt m) (g.idAt n) := by
  constructor
  · exact h.exists_failed_of_skipped hplan hn
  · intro ⟨m, hm, hfailed, hbefore⟩
    exact h.skipped_of_failed hplan hbefore m (hplan.lt m hm) rfl hfailed n hn rfl

theorem someFailed_take_iff (h : Settled plan failFast [] plan.waves ledgers)
    (hplan : plan.Sound g) (i : Nat) : Ledger.someFailed (ledgers.take i).flatten = true ↔
      ∃ j wave m, j < i ∧ plan.waves[j]? = some wave ∧ m ∈ wave ∧ Failed ledgers.flatten m := by
  unfold Ledger.someFailed
  rw [List.any_eq_true]
  constructor
  · intro ⟨⟨m, fate⟩, he, hfailed⟩
    obtain ⟨l, hl, hel⟩ := List.mem_flatten.1 he
    obtain ⟨j, hj⟩ := List.mem_iff_getElem?.1 hl
    rw [List.getElem?_take] at hj
    split at hj
    next hji =>
      obtain ⟨wave, hwave, hperm⟩ := (h.due_at hplan.layers hj).1
      have hmem : (m, fate) ∈ ledgers.flatten :=
        List.mem_flatten.2 ⟨l, List.mem_of_getElem? hj, hel⟩
      have hm : m ∈ wave := hperm.mem_iff.1 (List.mem_map.2 ⟨_, hel, rfl⟩)
      rcases fate with (failure | outputs) | p | _
      · exact ⟨j, wave, m, hji, hwave, hm, failure, hmem⟩
      all_goals cases hfailed
    next => cases hj
  · intro ⟨j, wave, m, hji, hwave, hm, failure, hfailed⟩
    obtain ⟨l, hl, hperm⟩ := h.exists_ledger hwave
    obtain ⟨⟨m, fate⟩, hel, rfl⟩ := List.mem_map.1 (hperm.mem_iff.2 hm)
    have hmem : (m, fate) ∈ ledgers.flatten :=
      List.mem_flatten.2 ⟨l, List.mem_of_getElem? hl, hel⟩
    cases h.fate_unique hplan hmem hfailed
    have htake : (ledgers.take i)[j]? = some l := by
      rw [List.getElem?_take, if_pos hji, hl]
    exact ⟨_, List.mem_flatten.2 ⟨l, List.mem_of_getElem? htake, hel⟩, rfl⟩

end Settled

end Rebuild
