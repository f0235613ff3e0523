import Rebuild.Proofs.Build.Outcomes

/-!
# What a report depends on

A run settles fates in an order that the plan and the failures fix, so two runs
of one plan in which every builder ends alike report alike, in whatever worlds
and in whatever order the builders ran.

* `Fate.plain`, `Ledger.plain`: what became of builders, but not why they failed.
* `Report.Alike`: reports that differ in the causes of failures at most.
* `Settled.plain_eq`, `Ledger.alike_of_plain_eq`: the ends of the runs decide the
  report.
* `Graph.plan_congr`: the identities and the edges decide the plan.
* `Context.execute_side_by_side`: two builds of the same identities, in whatever
  worlds, fail alike or run the same plan.
-/
namespace Rebuild

/-! ## Fates without causes -/

/-- A fate without the cause of a failure. -/
def Fate.plain : Fate → Fate
  | ran (.error _) => ran (.error .panicked)
  | fate => fate

theorem Fate.isFailed_plain (fate : Fate) : fate.plain.isFailed = fate.isFailed := by
  rcases fate with (failure | outputs) | p | _ <;> rfl

theorem Fate.isLost_plain (fate : Fate) : fate.plain.isLost = fate.isLost := by
  rcases fate with (failure | outputs) | p | _ <;> rfl

namespace Ledger

/-- What became of builders, without the causes of failures. -/
def plain (l : Ledger) : Ledger := l.map fun e => (e.1, e.2.plain)

theorem plain_append (l m : Ledger) : (l ++ m).plain = l.plain ++ m.plain := List.map_append

theorem lost_plain (l : Ledger) : l.plain.lost = l.lost := by
  funext n
  unfold lost plain
  rw [List.any_map]
  simp only [Function.comp_def, Fate.isLost_plain]

theorem someFailed_plain (l : Ledger) : l.plain.someFailed = l.someFailed := by
  unfold someFailed plain
  rw [List.any_map]
  simp only [Function.comp_def, Fate.isFailed_plain]

theorem plain_eq_of_keys : ∀ {l m : Ledger}, l.map Prod.fst = m.map Prod.fst →
    (∀ e ∈ l, ∀ e' ∈ m, e.1 = e'.1 → e.2.plain = e'.2.plain) → l.plain = m.plain
  | [], [], _, _ => rfl
  | [], _ :: _, hkeys, _ => by cases hkeys
  | _ :: _, [], hkeys, _ => by cases hkeys
  | e :: l, e' :: m, hkeys, hfates => by
    rw [List.map_cons, List.map_cons, List.cons.injEq] at hkeys
    have hrest : plain l = plain m := plain_eq_of_keys hkeys.2 fun a ha b hb =>
      hfates a (List.mem_cons_of_mem _ ha) b (List.mem_cons_of_mem _ hb)
    have hhead : e.2.plain = e'.2.plain :=
      hfates e List.mem_cons_self e' List.mem_cons_self hkeys.1
    show (e.1, e.2.plain) :: plain l = (e'.1, e'.2.plain) :: plain m
    rw [hkeys.1, hhead, hrest]

end Ledger

/-! ## The ends of the runs decide the ledger -/

/-- What is due to a builder that is not run leaves no choice. -/
theorem Due.plain_eq {plan : Plan} {lost : Nat → Bool} {stopped : Bool} {n : Nat}
    {fate fate' : Fate} (h : Due plan lost stopped (n, fate))
    (h' : Due plan lost stopped (n, fate')) (hran : ∀ result result', fate = .ran result →
      fate' = .ran result' → fate.plain = fate'.plain) : fate.plain = fate'.plain := by
  unfold Due at h h'
  cases fate with
  | skipped p =>
    cases fate' with
    | skipped q => rw [Option.some.inj (h.symm.trans h')]
    | heldBack => cases h.symm.trans h'.1
    | ran result => cases h.symm.trans h'.1
  | heldBack =>
    cases fate' with
    | skipped q => cases h.1.symm.trans h'
    | heldBack => rfl
    | ran result => cases h.2.symm.trans h'.2
  | ran result =>
    cases fate' with
    | skipped q => cases h.1.symm.trans h'
    | heldBack => cases h.2.symm.trans h'.2
    | ran result' => exact hran result result' rfl rfl

/-- Runs of one plan settle the same fates if builders that run in both end alike. -/
theorem Settled.plain_eq {plan : Plan} {failFast : Bool} :
    ∀ {waves : List (List Nat)} {earlier earlier' : Ledger} {ledgers ledgers' : List Ledger},
    Settled plan failFast earlier waves ledgers → Settled plan failFast earlier' waves ledgers' →
    earlier.plain = earlier'.plain →
    (∀ n result result', (n, Fate.ran result) ∈ ledgers.flatten →
      (n, Fate.ran result') ∈ ledgers'.flatten →
      (Fate.ran result).plain = (Fate.ran result').plain) →
    Ledger.plain ledgers.flatten = Ledger.plain ledgers'.flatten
  | [], _, _, [], [], _, _, _, _ => rfl
  | wave :: rest, earlier, earlier', l :: ledgers, l' :: ledgers', ⟨hkeys, hdue, hrest⟩,
      ⟨hkeys', hdue', hrest'⟩, hearlier, hran => by
    have hlost : earlier.lost = earlier'.lost := by
      rw [← Ledger.lost_plain, hearlier, Ledger.lost_plain]
    have hfailed : earlier.someFailed = earlier'.someFailed := by
      rw [← Ledger.someFailed_plain, hearlier, Ledger.someFailed_plain]
    have hwave : l.plain = l'.plain := by
      refine Ledger.plain_eq_of_keys (by rw [hkeys, hkeys', hlost]) ?_
      intro e he e' he' hplace
      obtain ⟨n, fate⟩ := e
      obtain ⟨n', fate'⟩ := e'
      cases hplace
      have h := hdue _ he
      have h' := hdue' _ he'
      rw [← hlost, ← hfailed] at h'
      refine Due.plain_eq h h' ?_
      intro result result' heq heq'
      subst heq heq'
      exact hran n result result' (List.mem_append_left _ he) (List.mem_append_left _ he')
    have hothers : Ledger.plain ledgers.flatten = Ledger.plain ledgers'.flatten := by
      refine Settled.plain_eq hrest hrest' ?_ fun n result result' he he' =>
        hran n result result' (List.mem_append_right _ he) (List.mem_append_right _ he')
      rw [Ledger.plain_append, Ledger.plain_append, hearlier, hwave]
    rw [List.flatten_cons, List.flatten_cons, Ledger.plain_append, Ledger.plain_append, hwave,
      hothers]
  | [], _, _, _ :: _, _, h, _, _, _ => h.elim
  | [], _, _, [], _ :: _, _, h, _, _ => h.elim
  | _ :: _, _, _, [], _, h, _, _, _ => h.elim
  | _ :: _, _, _, _ :: _, [], _, h, _, _ => h.elim

/-! ## The ledger decides the report -/

/-- Reports that differ in the causes of failures at most. -/
structure Report.Alike (r r' : Report) : Prop where
  results : r.results = r'.results
  executed : r.executed = r'.executed
  failed : r.failed.map BuildError.builder? = r'.failed.map BuildError.builder?
  skipped : r.skipped = r'.skipped
  notStarted : r.notStarted = r'.notStarted

section Entering

variable {β γ : Type} {g : Graph β} {g' : Graph γ}

theorem Report.Alike.enter {r r' : Report} (hids : g.idAt = g'.idAt) (h : r.Alike r') {n : Nat}
    {fate fate' : Fate} (hplain : fate.plain = fate'.plain) :
    (r.enter g (n, fate)).Alike (r'.enter g' (n, fate')) := by
  obtain ⟨hresults, hexecuted, hfailed, hskipped, hstarted⟩ := h
  rcases fate with (failure | outputs) | p | _ <;>
    rcases fate' with (failure' | outputs') | p' | _ <;> cases hplain
  · refine ⟨hresults, hexecuted, ?_, hskipped, hstarted⟩
    unfold Report.enter
    simp only [List.map_append, List.map_cons, List.map_nil, builder?_error, hfailed, hids]
  · refine ⟨?_, ?_, hfailed, hskipped, hstarted⟩
    · unfold Report.enter
      simp only [hresults, hids]
    · unfold Report.enter
      simp only [hexecuted, hids]
  · refine ⟨hresults, hexecuted, hfailed, ?_, hstarted⟩
    unfold Report.enter
    simp only [hskipped, hids]
  · refine ⟨hresults, hexecuted, hfailed, hskipped, ?_⟩
    unfold Report.enter
    simp only [hstarted, hids]

theorem Report.Alike.enterAll (hids : g.idAt = g'.idAt) : ∀ {l m : Ledger} {r r' : Report},
    l.plain = m.plain → r.Alike r' →
    (l.foldl (Report.enter g) r).Alike (m.foldl (Report.enter g') r')
  | [], [], _, _, _, h => h
  | [], _ :: _, _, _, hplain, _ => by cases hplain
  | _ :: _, [], _, _, hplain, _ => by cases hplain
  | (n, fate) :: l, (n', fate') :: m, r, r', hplain, h => by
    have hcons : (n, fate.plain) :: Ledger.plain l = (n', fate'.plain) :: Ledger.plain m := hplain
    rw [List.cons.injEq, Prod.mk.injEq] at hcons
    obtain ⟨⟨rfl, hfate⟩, hrest⟩ := hcons
    rw [List.foldl_cons, List.foldl_cons]
    exact enterAll hids hrest (h.enter hids hfate)

theorem Ledger.alike_of_plain_eq (hids : g.idAt = g'.idAt) {l m : Ledger}
    (h : l.plain = m.plain) : (l.report g).Alike (m.report g') :=
  .enterAll hids h ⟨rfl, rfl, rfl, rfl, rfl⟩

end Entering

/-! ## The identities and the edges decide the plan -/

section Planning

variable {β γ : Type} {g : Graph β} {g' : Graph γ}

theorem Graph.idAt_congr (hids : g.ids = g'.ids) : g.idAt = g'.idAt := by
  funext n
  unfold idAt
  rw [hids]

theorem Graph.lookup_congr (hids : g.ids = g'.ids) : g.lookup = g'.lookup := by
  funext id
  unfold lookup index?
  rw [hids]

theorem Graph.select_congr (hids : g.ids = g'.ids) (hedges : g.edges = g'.edges)
    (root : Option BuilderId) : g.select root = g'.select root := by
  have hsize : g.size = g'.size := by rw [← g.length_ids, hids, g'.length_ids]
  unfold select indexEdges
  rw [Graph.lookup_congr hids, hedges, hsize]

theorem Graph.plan_congr (hids : g.ids = g'.ids) (hedges : g.edges = g'.edges)
    (root : Option BuilderId) : g.plan root = g'.plan root := by
  unfold plan
  rw [Graph.select_congr hids hedges, Graph.idAt_congr hids]

end Planning

/-! ## Builds -/

/-- An edit of the edges that looks at nothing but them. -/
abbrev EdgeEdit := EdgeSet → Bool × EdgeSet

namespace EdgeEdit

/-- The edit as a transformation, whatever the world. -/
def transformation {σ : Type} (edit : EdgeEdit) : Transformation σ := fun edges => return edit edges

/-- Makes edits in order, until one vetoes the run. -/
def applyAll : Nat → List EdgeEdit → EdgeSet → Except Nat Unit × EdgeSet
  | _, [], edges => (.ok (), edges)
  | n, edit :: rest, edges =>
    let (go, edges) := edit edges
    if go then applyAll (n + 1) rest edges else (.error n, edges)

theorem applyTransformations_eq {σ : Type} : ∀ (n : Nat) (edits : List EdgeEdit) (edges : EdgeSet)
    (t : Traced σ), Context.applyTransformations n (edits.map transformation) edges t =
      (applyAll n edits edges, t)
  | _, [], _, _ => rfl
  | n, edit :: rest, edges, t => by
    have hedit : edit.transformation edges t = (edit edges, t) := rfl
    rw [List.map_cons, Context.applyTransformations, applyAll, Action.bind_apply, hedit]
    obtain ⟨go, left⟩ := edit edges
    cases go with
    | true => exact applyTransformations_eq (n + 1) rest left t
    | false => rfl

end EdgeEdit

/-- A graph with other edges. -/
def Graph.withEdges {β : Type} (g : Graph β) (edges : EdgeSet) : Graph β := { g with edges }

namespace Context

variable {σ τ : Type}

/-- The graph of a context with other edges. -/
def edited (c : Context σ) (edges : EdgeSet) : Graph (Builder σ) := c.graph.withEdges edges

/-- What a context that has not run yet does when it runs: nothing at all if an edit vetoes the run
or there is no plan; otherwise it runs a plan. -/
theorem execute_fresh {c : Context σ} {edits : List EdgeEdit} (hfresh : c.hasRun = false)
    (hedits : c.transformations = edits.map EdgeEdit.transformation) (schedule : Schedule)
    (root : Option BuilderId) (t : Traced σ) :
    ∃ t₁, Told t t₁ ∧
      match EdgeEdit.applyAll 0 edits c.graph.edges with
      | (.error n, edges) => c.execute schedule root t =
        ((.error .cancelled, { c with hasRun := true, graph := c.edited edges }),
          (Action.tell (.buildCancelled n) t₁).2)
      | (.ok (), edges) =>
        match (c.edited edges).plan root with
        | .error e => c.execute schedule root t =
          ((.error (.graph e), { c with hasRun := true, graph := c.edited edges }), t₁)
        | .ok plan =>
          let (report, t₂) := runPlan (c.edited edges) c.config schedule plan t₁
          c.execute schedule root t = ((.ok report, { c with
            hasRun := true, graph := c.edited edges, results := report.results }), t₂) := by
  refine ⟨_, .tell (.buildStarted c.graph.size c.graph.edges.size root), ?_⟩
  have happly := EdgeEdit.applyTransformations_eq 0 edits c.graph.edges
    (Action.tell (.buildStarted c.graph.size c.graph.edges.size root) t).2
  rw [← hedits] at happly
  unfold execute
  simp only [hfresh, Action.bind_apply, Bool.false_eq_true, ↓reduceIte]
  rw [happly]
  generalize EdgeEdit.applyAll 0 edits c.graph.edges = answer
  obtain ⟨go, edges⟩ := answer
  cases go with
  | error n => rfl
  | ok =>
    show match (c.edited edges).plan root with | .error e => _ | .ok plan => _
    have hplan : ({ c.graph with edges } : Graph (Builder σ)).plan root =
      (c.edited edges).plan root := rfl
    cases h : (c.edited edges).plan root with
    | error e => simp only [hplan, h]; rfl
    | ok plan => simp only [hplan, h]; rfl

/-- Builders that run in both of two lists of runs end alike: both give the same outputs, or both
fail. -/
def RunsAlike (runs runs' : List (Nat × Except RunFailure Outputs)) : Prop :=
  ∀ n result result', (n, result) ∈ runs → (n, result') ∈ runs' →
    (Fate.ran result).plain = (Fate.ran result').plain

theorem resultsOf_congr {c : Context σ} {c' : Context τ} (hids : c.graph.ids = c'.graph.ids)
    (hresults : c.results = c'.results) (id : BuilderId) : c.resultsOf id = c'.resultsOf id := by
  unfold resultsOf Graph.contains
  rw [hids, hresults]

section SideBySide

variable {c : Context σ} {c' : Context τ} {edits : List EdgeEdit} {schedule schedule' : Schedule}

/-- Two builds of the same identities. Either both fail for the same reason, and run nobody; or both
run builders, and report and answer alike if these end alike. -/
theorem execute_side_by_side (hfresh : c.hasRun = false) (hfresh' : c'.hasRun = false)
    (hedits : c.transformations = edits.map EdgeEdit.transformation)
    (hedits' : c'.transformations = edits.map EdgeEdit.transformation)
    (hids : c.graph.ids = c'.graph.ids) (hedges : c.graph.edges = c'.graph.edges)
    (hconfig : c.config = c'.config) (hschedule : ∀ wave, (schedule wave).Perm wave)
    (hschedule' : ∀ wave, (schedule' wave).Perm wave) (root : Option BuilderId) (t : Traced σ)
    (t' : Traced τ) :
    (∃ e d d' u u', c.execute schedule root t = ((.error e, d), u) ∧
      c'.execute schedule' root t' = ((.error e, d'), u') ∧ Told t u ∧ Told t' u') ∨
    ∃ edges plan report report' runs runs' d d' u u',
      c.execute schedule root t = ((.ok report, d), u) ∧
      c'.execute schedule' root t' = ((.ok report', d'), u') ∧
      Runs (c.edited edges) t runs u ∧ Runs (c'.edited edges) t' runs' u' ∧
      report.Right (c.edited edges) plan c.config.failFast runs ∧
      report'.Right (c'.edited edges) plan c.config.failFast runs' ∧
      (RunsAlike runs runs' →
        report.Alike report' ∧ ∀ id, d.resultsOf id = d'.resultsOf id) := by
  obtain ⟨t₁, htold, hrun⟩ := execute_fresh hfresh hedits schedule root t
  obtain ⟨t₁', htold', hrun'⟩ := execute_fresh hfresh' hedits' schedule' root t'
  rw [← hedges] at hrun'
  generalize EdgeEdit.applyAll 0 edits c.graph.edges = answer at hrun hrun'
  obtain ⟨go, edges⟩ := answer
  cases go with
  | error n =>
    exact .inl ⟨_, _, _, _, _, hrun, hrun', htold.trans (.tell _), htold'.trans (.tell _)⟩
  | ok =>
    have hids' : (c.edited edges).ids = (c'.edited edges).ids := hids
    have hplan : (c.edited edges).plan root = (c'.edited edges).plan root :=
      Graph.plan_congr hids' rfl root
    simp only [← hplan] at hrun hrun'
    cases h : (c.edited edges).plan root with
    | error e =>
      simp only [h] at hrun hrun'
      exact .inl ⟨_, _, _, _, _, hrun, hrun', htold, htold'⟩
    | ok plan =>
      simp only [h] at hrun hrun'
      have hsound : plan.Sound (c.edited edges) := sound_of_plan h
      have hsound' : plan.Sound (c'.edited edges) := sound_of_plan (hplan ▸ h)
      obtain ⟨ledgers, runs, u, hrunPlan, hsettled, hruns, hperm⟩ :=
        runPlan_settled c.config hschedule hsound t₁
      obtain ⟨ledgers', runs', u', hrunPlan', hsettled', hruns', hperm'⟩ :=
        runPlan_settled c'.config hschedule' hsound' t₁'
      rw [← hconfig] at hsettled'
      simp only [hrunPlan] at hrun
      simp only [hrunPlan'] at hrun'
      refine .inr ⟨edges, plan, _, _, runs, runs', _, _, u, u', hrun, hrun', hruns.told_left htold,
        hruns'.told_left htold', hsettled.right hsound hperm, hsettled'.right hsound' hperm',
        ?_⟩
      intro halike
      have hplain : Ledger.plain ledgers.flatten = Ledger.plain ledgers'.flatten :=
        Settled.plain_eq hsettled hsettled' rfl fun n result result' hn hn' =>
          halike n result result' (hperm.mem_iff.1 (Ledger.mem_runs.2 hn))
            (hperm'.mem_iff.1 (Ledger.mem_runs.2 hn'))
      have hreport := Ledger.alike_of_plain_eq (Graph.idAt_congr hids') hplain
      refine ⟨hreport, resultsOf_congr ?_ ?_⟩
      · exact hids'
      · exact hreport.results

end SideBySide

end Context

end Rebuild
