import Rebuild.Proofs.Build.Outcomes

/-!
# A context runs once

Whatever is asked of a context, and in whatever order: up to the first run nothing is called, and
after it nothing is called any more and nothing changes, however the run ended. In between, each
transformation is called at most once, in the order they were added, and each builder at most
once. A run that is refused for its transformations or its edges calls no builder.

* `Watched`, `Happening`: worlds that keep a record of what is called.
* `Context.Call`, `Context.respond`, `Context.after`: what is asked of a context.
* `Context.Unspent`: a context that has not run.
* `Unspent.execute_spec`, `respond_of_hasRun`: the first run, and what comes after it.
* `Context.runs_once`: all calls.
-/
namespace Rebuild

/-! ## The record -/

/-- A call of a transformation: which one, the edges it sees and leaves, and whether it lets the
build go on. -/
structure Edited where
  number : Nat
  seen : EdgeSet
  left : EdgeSet
  go : Bool

/-- Something that is called. -/
inductive Happening where
  | edited (edit : Edited)
  | ran (id : BuilderId)

/-- A world, and what has been called in it, the earliest first. -/
structure Watched (σ : Type) where
  world : σ
  record : List Happening := []

variable {σ α : Type}

/-- Puts a note of an action on record, whatever the action does to the record. -/
def Action.noted (x : Action (Watched σ) α) (note : α → Happening) : Action (Watched σ) α :=
  fun t => ((x t).1, { (x t).2 with
    world := ⟨(x t).2.world.world, t.world.record ++ [note (x t).1]⟩ })

/-- The builder, with a note of each run. -/
def Builder.watched (b : Builder (Watched σ)) : Builder (Watched σ) :=
  { b with run := Action.noted b.run fun _ => .ran b.id }

/-- The transformation, with a note of each call. -/
def Transformation.watched (number : Nat) (t : Transformation (Watched σ)) :
    Transformation (Watched σ) :=
  fun edges => Action.noted (t edges) fun (go, left) => .edited ⟨number, edges, left, go⟩

/-- Transformations are called in order, from one edge set to another: each is given what the one
before it left, and none comes after a veto. -/
def Edits : Nat → EdgeSet → List Edited → EdgeSet → Prop
  | _, edges, [], left => left = edges
  | n, edges, edit :: rest, left =>
    edit.number = n ∧ edit.seen = edges ∧ (edit.go = false → rest = []) ∧
      Edits (n + 1) edit.left rest left

/-- All builders of a graph are watched. -/
def Graph.Watched (g : Graph (Builder (Watched σ))) : Prop :=
  ∀ node ∈ g.nodes, ∃ b : Builder (Rebuild.Watched σ), node = (b.id, b.watched)

theorem Runs.record_eq {g : Graph (Builder (Watched σ))} (hg : g.Watched)
    {t t' : Traced (Watched σ)} {runs : List (Nat × Except RunFailure Outputs)}
    (h : Runs g t runs t') :
    t'.world.record = t.world.record ++ runs.map fun e => .ran (g.idAt e.1) := by
  induction h with
  | done told => rw [told.world_eq, List.map_nil, List.append_nil]
  | @run t t₁ t₂ t' n id b result rest told node run others ih =>
    obtain ⟨b, hb⟩ := hg _ (List.mem_of_getElem? node)
    cases hb
    have hran : t₂.world.record = t₁.world.record ++ [.ran b.id] := by
      rw [← show (b.watched.run t₁).2 = t₂ from congrArg Prod.snd run]
      rfl
    rw [ih, List.map_cons, g.idAt_of_getElem? node, hran, told.world_eq, List.append_assoc]
    rfl

namespace Context

/-- What is on record after transformations. The first has the given number. -/
theorem applyTransformations_spec : ∀ (n : Nat) (l : List (Transformation (Watched σ)))
    (edges : EdgeSet) (t : Traced (Watched σ)),
    (∀ i x, l[i]? = some x → ∃ y : Transformation (Watched σ), x = y.watched (n + i)) →
    ∃ edits go left t', applyTransformations n l edges t = ((go, left), t') ∧
      t'.world.record = t.world.record ++ edits.map .edited ∧ Edits n edges edits left ∧
      edits.length ≤ l.length ∧ (go = .ok () → edits.length = l.length)
  | _, [], edges, t, _ => ⟨[], _, edges, t, rfl, by simp, rfl, by simp, fun _ => rfl⟩
  | n, x :: rest, edges, t, hwatched => by
    obtain ⟨y, rfl⟩ := hwatched 0 x rfl
    unfold applyTransformations
    rw [Action.bind_apply]
    generalize hcalled : y.watched n edges t = called
    obtain ⟨⟨go, left⟩, t₁⟩ := called
    have hrecord : t₁.world.record = t.world.record ++ [.edited ⟨n, edges, left, go⟩] := by
      have hnoted : (y.watched n edges t).2.world.record = t.world.record ++
        [.edited ⟨n, edges, (y.watched n edges t).1.2, (y.watched n edges t).1.1⟩] := rfl
      rwa [hcalled] at hnoted
    cases go with
    | false =>
      refine ⟨[⟨n, edges, left, false⟩], .error n, left, t₁, rfl, hrecord, ?_, ?_, nofun⟩
      · exact ⟨rfl, rfl, fun _ => rfl, rfl⟩
      · simp
    | true =>
      obtain ⟨edits, go, left', t', heq, hrecord', hedits, hlength, hall⟩ :=
        applyTransformations_spec (n + 1) rest left t₁ fun i x hx => by
          rw [Nat.add_assoc, Nat.add_comm 1]
          exact hwatched (i + 1) x hx
      refine ⟨⟨n, edges, left, true⟩ :: edits, go, left', t', heq, ?_, ?_, ?_, ?_⟩
      · rw [hrecord', hrecord, List.map_cons, List.append_assoc]
        rfl
      · exact ⟨rfl, rfl, nofun, hedits⟩
      · exact Nat.succ_le_succ hlength
      · exact fun hgo => congrArg Nat.succ (hall hgo)

/-! ## Calls -/

/-- What is asked of a context. -/
inductive Call (σ : Type) where
  | add (b : Builder (Watched σ)) (prerequisites : List (Builder (Watched σ)))
  | transform (t : Transformation (Watched σ))
  | execute (schedule : Schedule) (root : Option BuilderId)
  | run (schedule : Schedule) (root : Option BuilderId)
  | resultsOf (id : BuilderId)
  | dependentsOf (id : BuilderId)
  | contains (id : BuilderId)
  | dump (root : Option BuilderId)
  | dumpWithin (root : Option BuilderId) (room : Nat)

/-- What a context answers. -/
inductive Answer where
  | ended (result : Except BuildError Unit)
  | reported (result : Except BuildError Report)
  | outputs (result : Except BuildError Outputs)
  | builders (ids : List BuilderId)
  | found (found : Bool)
  | dumped (result : Except BuildError String)

/-- A context and the world it is used in. -/
structure State (σ : Type) where
  context : Context (Watched σ)
  traced : Traced (Watched σ)

/-- What an operation on a context comes to, with its result as an answer. -/
def State.ofEnd (form : α → Answer) (ended : (α × Context (Watched σ)) × Traced (Watched σ)) :
    Answer × State σ :=
  (form ended.1.1, ⟨ended.1.2, ended.2⟩)

/-- How a context answers a call. The transformations are numbered as they are added. -/
def respond : Call σ → State σ → Answer × State σ
  | .add b prerequisites, s =>
    State.ofEnd .ended (s.context.add b.watched (prerequisites.map Builder.watched) s.traced)
  | .transform x, s =>
    State.ofEnd .ended (s.context.transform (x.watched s.context.transformations.length), s.traced)
  | .execute schedule root, s => State.ofEnd .reported (s.context.execute schedule root s.traced)
  | .run schedule root, s => State.ofEnd .outputs (s.context.run schedule root s.traced)
  | .resultsOf id, s => (.outputs (s.context.resultsOf id), s)
  | .dependentsOf id, s => (.builders (s.context.dependentsOf id), s)
  | .contains id, s => (.found (s.context.contains id), s)
  | .dump root, s => (.dumped (s.context.dump root), s)
  | .dumpWithin root room, s => (.ended (s.context.dumpWithin root room), s)

/-- What calls, one after the other, leave. -/
def after (calls : List (Call σ)) (s : State σ) : State σ :=
  calls.foldl (fun s call => (respond call s).2) s

/-- The call starts a run. -/
def Call.starts : Call σ → Bool
  | .execute .. | .run .. => true
  | _ => false

/-- The schedule of a run drops no builder and adds none. -/
def Call.Fair : Call σ → Prop
  | .execute schedule _ | .run schedule _ => ∀ wave, (schedule wave).Perm wave
  | _ => True

/-- How a call that changes a context is refused after a run. -/
def Call.refusal? : Call σ → Option Answer
  | .add .. | .transform .. => some (.ended (.error .alreadyRun))
  | .execute .. => some (.reported (.error .alreadyRun))
  | .run .. => some (.outputs (.error .alreadyRun))
  | _ => none

/-- The error that a call ends with. -/
def Answer.error? : Answer → Option BuildError
  | .ended (.error e) | .reported (.error e) | .outputs (.error e) | .dumped (.error e) => some e
  | _ => none

end Context

/-- The transformations or the edges are such that nothing can be run. -/
def BuildError.IsConfiguration (e : BuildError) : Prop :=
  e = .cancelled ∨ (∃ id, e = .graph (.unknown id)) ∨ ∃ id, e = .graph (.cycle id)

namespace Context

/-! ## After a run -/

/-- A context that has run stays as it is, and refuses what would change it. -/
theorem respond_of_hasRun {s : State σ} (h : s.context.hasRun = true) (call : Call σ) :
    (respond call s).2 = s ∧
      ∀ answer, call.refusal? = some answer → (respond call s).1 = answer := by
  -- a refused operation leaves the context and the world as they are
  have hrefused {α : Type} {form : Except BuildError α → Answer}
      {ended : (Except BuildError α × Context (Watched σ)) × Traced (Watched σ)}
      (hended : ended = ((.error .alreadyRun, s.context), s.traced)) :
      (State.ofEnd form ended).2 = s ∧ ∀ answer, some (form (.error .alreadyRun)) = some answer →
        (State.ofEnd form ended).1 = answer := by
    rw [hended]
    exact ⟨rfl, fun _ hanswer => Option.some.inj hanswer⟩
  have hexecute (schedule : Schedule) (root : Option BuilderId) :
      s.context.execute schedule root s.traced = ((.error .alreadyRun, s.context), s.traced) := by
    unfold execute
    rw [if_pos h]
    rfl
  cases call with
  | add b prerequisites =>
    refine hrefused ?_
    unfold add
    rw [if_pos h]
    rfl
  | transform x =>
    refine hrefused ?_
    unfold transform
    rw [if_pos h]
  | execute schedule root => exact hrefused (hexecute schedule root)
  | run schedule root =>
    refine hrefused ?_
    unfold run
    rw [Action.bind_apply, hexecute]
    rfl
  | _ => exact ⟨rfl, nofun⟩

theorem after_of_hasRun {s : State σ} (h : s.context.hasRun = true) : ∀ calls : List (Call σ),
    after calls s = s
  | [] => rfl
  | call :: rest => by
    show after rest (respond call s).2 = s
    rw [(respond_of_hasRun h call).1]
    exact after_of_hasRun h rest

/-! ## Before a run -/

/-- A context that has not run: nothing has been called, and all that can be called is watched. -/
structure Unspent (s : State σ) : Prop where
  hasRun : s.context.hasRun = false
  results : s.context.results = ∅
  record : s.traced.world.record = []
  nodes : s.context.graph.Watched
  transformations : ∀ i x, s.context.transformations[i]? = some x →
    ∃ y : Transformation (Watched σ), x = y.watched i

theorem unspent_new (config : Config) (world : σ) (log : List Event) :
    Unspent ⟨{ config }, ⟨⟨world, []⟩, log⟩⟩ :=
  ⟨rfl, rfl, rfl, fun _ hnode => (List.not_mem_nil hnode).elim, nofun⟩

theorem Unspent.respond {s : State σ} (h : Unspent s) {call : Call σ}
    (hcall : call.starts = false) : Unspent (respond call s).2 := by
  cases call with
  | add b prerequisites =>
    obtain ⟨graph, t', heq, htold, hnodes⟩ :=
      add_spec h.hasRun b.watched (prerequisites.map Builder.watched) s.traced
    show Unspent (State.ofEnd Answer.ended (s.context.add _ _ s.traced)).2
    rw [heq]
    refine ⟨h.hasRun, h.results, ?_, ?_, h.transformations⟩
    · show t'.world.record = []
      rw [htold.world_eq]
      exact h.record
    · intro node hnode
      rcases hnodes node hnode with hnode | ⟨b', hb', rfl⟩
      · exact h.nodes node hnode
      · rw [← List.map_cons] at hb'
        obtain ⟨b'', -, rfl⟩ := List.mem_map.1 hb'
        exact ⟨b'', rfl⟩
  | transform x =>
    show Unspent (State.ofEnd Answer.ended (s.context.transform _, s.traced)).2
    unfold transform
    rw [if_neg (by rw [h.hasRun]; nofun)]
    refine ⟨h.hasRun, h.results, h.record, h.nodes, fun i y hy => ?_⟩
    have hy : (s.context.transformations ++ [_])[i]? = some y := hy
    rcases Nat.lt_or_ge i s.context.transformations.length with hi | hi
    · rw [List.getElem?_append_left hi] at hy
      exact h.transformations i y hy
    · rw [List.getElem?_append_right hi, List.getElem?_singleton] at hy
      split at hy
      next hlast =>
        cases hy
        exact ⟨x, by rw [Nat.le_antisymm (Nat.sub_eq_zero_iff_le.1 hlast) hi]⟩
      next => cases hy
  | execute schedule root => cases hcall
  | run schedule root => cases hcall
  | _ => exact h

theorem Unspent.after {calls : List (Call σ)} : ∀ {s : State σ}, Unspent s →
    (∀ call ∈ calls, call.starts = false) → Unspent (after calls s) := by
  induction calls with
  | nil => exact fun h _ => h
  | cons call rest ih =>
    intro s h hcalls
    obtain ⟨hcall, hrest⟩ := List.forall_mem_cons.1 hcalls
    exact ih (h.respond hcall) hrest

/-! ## The run -/

/-- From one state to another by a run, with the calls of transformations and the builders that were
run. -/
structure RanOnce (s s' : State σ) (edits : List Edited) (ids : List BuilderId) : Prop where
  hasRun : s'.context.hasRun = true
  /-- Transformations are called before builders, and nothing else is called. -/
  record : s'.traced.world.record = edits.map .edited ++ ids.map .ran
  edited : Edits 0 s.context.graph.edges edits s'.context.graph.edges
  length_le : edits.length ≤ s.context.transformations.length
  distinct : ids.Nodup

/-- The run of a context that has not run. If it ends with an error, no builder was run. -/
theorem Unspent.execute_spec {s : State σ} (h : Unspent s) {schedule : Schedule}
    (hschedule : ∀ wave, (schedule wave).Perm wave) (root : Option BuilderId) :
    ∃ result c' t' edits ids,
      s.context.execute schedule root s.traced = ((result, c'), t') ∧
      RanOnce s ⟨c', t'⟩ edits ids ∧ (∀ e, result = .error e → ids = [] ∧ c'.results = ∅) ∧
      ∀ report, result = .ok report → ∀ e ∈ report.failed, ¬e.IsConfiguration := by
  obtain ⟨edits, go, left, t₁, happly, hrecord, hedits, hlength, -⟩ :=
    applyTransformations_spec 0 s.context.transformations s.context.graph.edges
      (Action.tell (.buildStarted s.context.graph.size s.context.graph.edges.size root) s.traced).2
      fun i x hx => by
        rw [Nat.zero_add]
        exact h.transformations i x hx
  rw [(Told.tell _).world_eq, h.record, List.nil_append] at hrecord
  have hnone {t' : Traced (Watched σ)} {c' : Context (Watched σ)} (hworld : t'.world = t₁.world)
      (hhas : c'.hasRun = true) (hleft : c'.graph.edges = left) : RanOnce s ⟨c', t'⟩ edits [] := by
    refine ⟨hhas, ?_, hleft ▸ hedits, hlength, .nil⟩
    rw [List.map_nil, List.append_nil, ← hrecord, ← hworld]
  unfold execute
  rw [if_neg (by rw [h.hasRun]; nofun), Action.bind_apply, Action.bind_apply, happly]
  cases go with
  | error n =>
    exact ⟨_, _, _, edits, [], rfl, hnone rfl rfl rfl, fun _ _ => ⟨rfl, h.results⟩, nofun⟩
  | ok =>
    dsimp only
    cases hplan : Graph.plan { s.context.graph with edges := left } root with
    | error e =>
      exact ⟨_, _, _, edits, [], rfl, hnone rfl rfl rfl, fun _ _ => ⟨rfl, h.results⟩, nofun⟩
    | ok plan =>
      obtain ⟨runs, report, t₂, hrunPlan, hruns, hright⟩ :=
        runPlan_spec s.context.config hschedule (sound_of_plan hplan) t₁
      dsimp only
      rw [Action.bind_apply, hrunPlan]
      refine ⟨_, _, _, edits, runs.map _, rfl, ⟨rfl, ?_, hedits, hlength, hright.runs_distinct⟩,
        nofun, ?_⟩
      · have hran := hruns.record_eq (g := { s.context.graph with edges := left }) h.nodes
        rw [hrecord] at hran
        rw [List.map_map]
        exact hran
      · rintro _ ⟨⟩ e he
        obtain ⟨n, failure, -, rfl⟩ := (hright.failed_iff e).1 he
        cases failure with
        | failed cause => rintro (h | ⟨_, h⟩ | ⟨_, h⟩) <;> cases h
        | panicked => rintro (h | ⟨_, h⟩ | ⟨_, h⟩) <;> cases h

theorem Unspent.first {s : State σ} (h : Unspent s) {first : Call σ} (hstarts : first.starts = true)
    (hfair : first.Fair) :
    ∃ edits ids, RanOnce s (Context.respond first s).2 edits ids ∧
      ∀ e, (Context.respond first s).1.error? = some e → e.IsConfiguration →
        ids = [] ∧ (Context.respond first s).2.context.results = ∅ := by
  cases first with
  | execute schedule root =>
    obtain ⟨result, c', t', edits, ids, heq, hran, herror, -⟩ := h.execute_spec hfair root
    have hrespond : Context.respond (.execute schedule root) s = (.reported result, ⟨c', t'⟩) :=
      congrArg (State.ofEnd Answer.reported) heq
    rw [hrespond]
    refine ⟨edits, ids, hran, fun e he _ => ?_⟩
    cases result with
    | ok report => cases he
    | error e' => exact herror e' rfl
  | run schedule root =>
    obtain ⟨result, c', t', edits, ids, heq, hran, herror, hfailed⟩ := h.execute_spec hfair root
    have hrun : s.context.run schedule root s.traced = ((result.bind Report.result, c'), t') := by
      unfold Context.run
      rw [Action.bind_apply, heq]
      rfl
    have hrespond : Context.respond (.run schedule root) s =
        (.outputs (result.bind Report.result), ⟨c', t'⟩) :=
      congrArg (State.ofEnd Answer.outputs) hrun
    rw [hrespond]
    refine ⟨edits, ids, hran, fun e he hconfiguration => ?_⟩
    cases result with
    | error e' => exact herror e' rfl
    | ok report =>
      -- the failure of a builder is none of the configuration
      have hresult : (Answer.outputs report.result).error? = some e := he
      unfold Report.result at hresult
      split at hresult
      · cases hresult
      next failure rest hfailures =>
        cases hresult
        exact absurd hconfiguration (hfailed report rfl e (hfailures ▸ List.mem_cons_self))
  | _ => cases hstarts

/-- For all calls on a new context. Nothing is called before a run starts. With the first run the
context is spent, whatever the run ends with; transformations were called in order, then builders,
each at most once. A run that fails for the configuration has called no builder. From then on
nothing changes, and what would change something is refused. -/
theorem runs_once (config : Config) (world : σ) (log : List Event) {before : List (Call σ)}
    (hbefore : ∀ call ∈ before, call.starts = false) :
    let s := after before ⟨{ config }, ⟨⟨world, []⟩, log⟩⟩
    (s.context.hasRun = false ∧ s.traced.world.record = []) ∧
    ∀ first : Call σ, first.starts = true → first.Fair →
      let answer := (respond first s).1
      let s' := (respond first s).2
      (∃ edits ids, RanOnce s s' edits ids ∧
        ∀ e, answer.error? = some e → e.IsConfiguration → ids = [] ∧
          ∀ id, s'.context.contains id = true → s'.context.resultsOf id = .error (.notRun id)) ∧
      ∀ rest : List (Call σ), after rest s' = s' ∧
        ∀ call answer, call.refusal? = some answer → (respond call s').1 = answer := by
  have h := (unspent_new config world log).after hbefore
  refine ⟨⟨h.hasRun, h.record⟩, fun first hstarts hfair => ?_⟩
  obtain ⟨edits, ids, hran, hrefused⟩ := h.first hstarts hfair
  refine ⟨⟨edits, ids, hran, fun e he hconfiguration => ?_⟩, fun rest => ?_⟩
  · obtain ⟨hids, hresults⟩ := hrefused e he hconfiguration
    refine ⟨hids, fun id hid => resultsOf_of_none hid ?_⟩
    rw [hresults]
    rfl
  · exact ⟨after_of_hasRun hran.hasRun rest, fun call => (respond_of_hasRun hran.hasRun call).2⟩

/-- A builder without outputs. -/
def idle (key : String) : Builder (Watched Unit) := ⟨⟨"b", key⟩, 0, .nothing, pure (.ok ∅), []⟩

/-- A transformation that takes all edges away and vetoes the run. -/
def veto : Transformation (Watched Unit) := fun _ => pure (false, ∅)

/-- A vetoed run calls the transformation and no builder, and there is no second run. -/
theorem runs_once_vetoed :
    let s := after [.add (idle "second") [idle "first"], .transform veto]
      ⟨{ config := .standard 1 }, ⟨⟨(), []⟩, []⟩⟩
    let s' := (respond (.run id none) s).2
    (respond (.run id none) s).1 = .outputs (.error .cancelled) ∧
      (∃ edits, s'.traced.world.record = edits.map .edited ∧
        Edits 0 (SortedSet.ofList [⟨⟨"b", "first"⟩, ⟨"b", "second"⟩⟩]) edits ∅) ∧
      s'.context.resultsOf ⟨"b", "first"⟩ = .error (.notRun ⟨"b", "first"⟩) ∧
      (respond (.execute id none) s').1 = .reported (.error .alreadyRun) := by
  intro s s'
  have hbefore : ∀ call ∈ [.add (idle "second") [idle "first"], .transform veto],
      Call.starts call = false := by decide
  obtain ⟨-, hfirst⟩ := runs_once (.standard 1) () [] hbefore
  obtain ⟨⟨edits, ids, hran, hrefused⟩, hspent⟩ := hfirst (.run id none) rfl fun _ => .rfl
  obtain ⟨rfl, hresults⟩ := hrefused .cancelled rfl (.inl rfl)
  refine ⟨rfl, ⟨edits, ?_, hran.edited⟩, hresults _ rfl, (hspent []).2 _ _ rfl⟩
  rw [hran.record, List.map_nil, List.append_nil]

end Context

end Rebuild
