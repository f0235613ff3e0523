import Mathlib.Data.Set.Function
import Mathlib.Order.Interval.Set.Defs
import Rebuild.Proofs.Build.Course
import Rebuild.Proofs.Graph.Countdown
import Rebuild.Proofs.Graph.Tables

/-!
# How a build is assembled

Builders are added call by call, each with its prerequisites, in any order and as often as one
likes. What comes of it can be said of the calls: the first builder that is mentioned for an
identity stays, at the place of its mention, and there is an edge exactly for each prerequisite
that was named.

* `Context.addAll`, `Context.addAll_eq`: what a sequence of calls does to a build.
* `Addition.mentions`, `Addition.needs`: whom calls mention, and which edges they name.
* `Assembled.addNode`, `Assembled.addEdge`, `assembled`: a graph is what the calls say.
* `Context.addAll_assembles`: what can be relied on after any calls and any edits of the edges.
-/
namespace Rebuild

/-! ## Calls -/

namespace Addition

variable {σ : Type}

/-- Whom calls mention: each builder before its prerequisites. -/
def mentions (calls : List (Addition σ)) : List (Builder σ) :=
  calls.flatMap fun call => call.builder :: call.prerequisites

/-- The edges that calls name. -/
def needs (calls : List (Addition σ)) : List Edge :=
  calls.flatMap fun call => call.prerequisites.map fun b => ⟨b.id, call.builder.id⟩

theorem mem_needs {calls : List (Addition σ)} {e : Edge} : e ∈ needs calls ↔
    ∃ call ∈ calls, ∃ b ∈ call.prerequisites, e = ⟨b.id, call.builder.id⟩ := by
  unfold needs
  simp only [List.mem_flatMap, List.mem_map, eq_comm]

end Addition

/-- Adds builders call after call, with all answers. -/
def Context.addAll {σ : Type} (c : Context σ) :
    List (Addition σ) → Action σ (List (Except BuildError Unit) × Context σ)
  | [] => return ([], c)
  | call :: rest => do
    let (answer, c) ← c.add call.builder call.prerequisites
    let (answers, c) ← c.addAll rest
    return (answer :: answers, c)

namespace Graph

variable {σ : Type}

/-- The graph of all calls. -/
def assemble (calls : List (Addition σ)) : Graph (Builder σ) := calls.foldl declare {}

theorem isSome_get? {β : Type} (g : Graph β) {id : BuilderId} :
    (g.get? id).isSome = true ↔ id ∈ g.ids := by
  unfold get? ids
  rw [Option.isSome_map, List.find?_isSome, List.mem_map]
  simp only [beq_iff_eq]

end Graph

namespace Context

variable {σ : Type}

/-- No call is refused, and together they only change the graph. -/
theorem addAll_eq : ∀ {c : Context σ}, c.hasRun = false → ∀ (calls : List (Addition σ))
    (t : Traced σ), ∃ t', c.addAll calls t =
      ((calls.map fun _ => .ok (), { c with graph := calls.foldl Graph.declare c.graph }), t') ∧
        Told t t'
  | c, _, [], t => ⟨t, rfl, .rfl⟩
  | c, hfresh, call :: rest, t => by
    obtain ⟨t₁, hadd, htold₁⟩ := add_eq hfresh call t
    obtain ⟨t', heq, htold⟩ :=
      addAll_eq (c := { c with graph := c.graph.declare call }) hfresh rest t₁
    refine ⟨t', ?_, htold₁.trans htold⟩
    unfold addAll
    rw [Action.bind_apply, hadd]
    dsimp only
    rw [Action.bind_apply, heq]
    rfl

end Context

/-! ## What the calls say -/

/-- A graph is what is said of it: identities in order of first mention, each with the builder that
was mentioned first, and exactly the edges that were named. -/
structure Assembled {σ : Type} (g : Graph (Builder σ)) (mentioned : List (Builder σ))
    (needed : List Edge) : Prop where
  ids : g.ids = (mentioned.map Builder.id).eraseDups
  first : ∀ id, g.get? id = mentioned.find? fun b => b.id == id
  edges : ∀ e, e ∈ g.edges ↔ e ∈ needed

section Assembled

variable {σ : Type} {g : Graph (Builder σ)} {mentioned : List (Builder σ)} {needed : List Edge}

theorem Assembled.start : Assembled ({} : Graph (Builder σ)) [] [] :=
  ⟨rfl, fun _ => rfl, fun _ => iff_of_false (SortedSet.not_mem_empty _) List.not_mem_nil⟩

theorem Assembled.addNode (h : Assembled g mentioned needed) (b : Builder σ) :
    Assembled (g.addNode b.id b).2 (mentioned ++ [b]) needed := by
  have hmem : b.id ∈ g.ids ↔ (mentioned.map Builder.id).contains b.id = true := by
    rw [h.ids, List.mem_eraseDups, List.contains_iff_mem]
  have hids : ((mentioned ++ [b]).map Builder.id).eraseDups =
      g.ids ++ ([b.id].removeAll (mentioned.map Builder.id)).eraseDups := by
    rw [List.map_append, List.eraseDups_append, ← h.ids]
    rfl
  have hfind (id : BuilderId) : (mentioned ++ [b]).find? (fun b => b.id == id) =
      (g.get? id).or (if b.id == id then some b else none) := by
    rw [List.find?_append, ← h.first, List.find?_singleton]
  rw [List.cons_removeAll, List.nil_removeAll] at hids
  unfold Graph.addNode
  by_cases hid : b.id ∈ g.ids
  · rw [dif_pos hid]
    rw [hmem.1 hid, if_neg nofun, List.eraseDups_nil, List.append_nil] at hids
    refine ⟨hids.symm, fun id => ?_, h.edges⟩
    rw [hfind]
    split
    next heq =>
      have hsome := g.isSome_get?.2 hid
      rw [eq_of_beq heq] at hsome
      exact (Option.or_of_isSome hsome).symm
    next => exact Option.or_none.symm
  · rw [dif_neg hid]
    rw [Bool.eq_false_iff.2 (mt hmem.2 hid), if_pos rfl] at hids
    refine ⟨?_, fun id => ?_, h.edges⟩
    · rw [hids]
      exact List.map_append
    · rw [hfind]
      show ((g.nodes ++ [(b.id, b)]).find? fun n => n.1 == id).map Prod.snd = _
      rw [List.find?_append, Option.map_or, List.find?_singleton]
      split <;> rfl

theorem Assembled.addEdge (h : Assembled g mentioned needed) (a b : BuilderId) :
    Assembled (g.addEdge a b) mentioned (needed ++ [⟨a, b⟩]) := by
  refine ⟨h.ids, h.first, fun e => ?_⟩
  show e ∈ g.edges.insert ⟨a, b⟩ ↔ _
  rw [SortedSet.mem_insert, h.edges, List.mem_append, List.mem_singleton, or_comm]

theorem Assembled.foldl_need (dependent : BuilderId) : ∀ (prerequisites : List (Builder σ))
    {g : Graph (Builder σ)} {mentioned : List (Builder σ)} {needed : List Edge},
    Assembled g mentioned needed →
      Assembled (prerequisites.foldl (Graph.need dependent) g) (mentioned ++ prerequisites)
        (needed ++ prerequisites.map fun b => ⟨b.id, dependent⟩)
  | [], g, mentioned, needed, h => by rwa [List.append_nil, List.map_nil, List.append_nil]
  | b :: rest, g, mentioned, needed, h => by
    have hrest := ((h.addNode b).addEdge b.id dependent).foldl_need dependent rest
    rwa [List.append_assoc, List.append_assoc] at hrest

theorem Assembled.declare (h : Assembled g mentioned needed) (call : Addition σ) :
    Assembled (g.declare call) (mentioned ++ call.builder :: call.prerequisites)
      (needed ++ call.prerequisites.map fun b => ⟨b.id, call.builder.id⟩) := by
  have hcall := (h.addNode call.builder).foldl_need call.builder.id call.prerequisites
  rwa [List.append_assoc] at hcall

theorem Assembled.foldl_declare : ∀ (calls : List (Addition σ)) {g : Graph (Builder σ)}
    {mentioned : List (Builder σ)} {needed : List Edge}, Assembled g mentioned needed →
      Assembled (calls.foldl Graph.declare g) (mentioned ++ Addition.mentions calls)
        (needed ++ Addition.needs calls)
  | [], g, mentioned, needed, h => by
    unfold Addition.mentions Addition.needs
    rwa [List.flatMap_nil, List.flatMap_nil, List.append_nil, List.append_nil]
  | call :: rest, g, mentioned, needed, h => by
    have hrest := (h.declare call).foldl_declare rest
    rwa [List.append_assoc, List.append_assoc] at hrest

/-- The graph is what the calls say. -/
theorem assembled (calls : List (Addition σ)) :
    Assembled (Graph.assemble calls) (Addition.mentions calls) (Addition.needs calls) :=
  Assembled.start.foldl_declare calls

end Assembled

/-! ## Nothing moves -/

namespace Graph

variable {σ : Type}

theorem prefix_addNode (g : Graph (Builder σ)) (id : BuilderId) (b : Builder σ) :
    g.nodes <+: (g.addNode id b).2.nodes := by
  unfold addNode
  split
  · exact List.prefix_rfl
  · exact List.prefix_append _ _

theorem prefix_declare (g : Graph (Builder σ)) (call : Addition σ) :
    g.nodes <+: (g.declare call).nodes := by
  have hneed (g : Graph (Builder σ)) (b : Builder σ) :
      g.nodes <+: (g.need call.builder.id b).nodes := g.prefix_addNode b.id b
  refine List.foldlRecOn (motive := fun g' : Graph (Builder σ) => g.nodes <+: g'.nodes) _ _
    (g.prefix_addNode _ _) ?_
  exact fun g' h b _ => h.trans (hneed g' b)

theorem prefix_assemble (earlier later : List (Addition σ)) :
    (assemble earlier).nodes <+: (assemble (earlier ++ later)).nodes := by
  unfold assemble
  rw [List.foldl_append]
  refine List.foldlRecOn
    (motive := fun g' : Graph (Builder σ) => (earlier.foldl declare {}).nodes <+: g'.nodes) _ _
    List.prefix_rfl ?_
  exact fun g' h call _ => h.trans (g'.prefix_declare call)

theorem index?_of_prefix {g g' : Graph (Builder σ)} (h : g.nodes <+: g'.nodes) {id : BuilderId}
    {n : Nat} (hn : g.index? id = some n) : g'.index? id = some n := by
  obtain ⟨rest, hnodes⟩ := h
  unfold index? ids at hn ⊢
  rw [← hnodes, List.map_append]
  show (g.nodes.map Prod.fst ++ rest.map Prod.fst).findIdx? (· == id) = some n
  rw [List.findIdx?_append]
  exact Option.or_eq_some_iff.2 (.inl hn)

end Graph

/-! ## In tables -/

namespace Tables

variable {σ : Type}

/-- Adds a prerequisite of a builder. -/
def need (dependent : BuilderId) (t : Tables (Builder σ)) (b : Builder σ) : Tables (Builder σ) :=
  (t.addNode b.id b).2.addEdge b.id dependent

/-- Adds a builder with its prerequisites. -/
def declare (t : Tables (Builder σ)) (call : Addition σ) : Tables (Builder σ) :=
  call.prerequisites.foldl (need call.builder.id) (t.addNode call.builder.id call.builder).2

/-- The tables after all calls. -/
def assemble (calls : List (Addition σ)) : Tables (Builder σ) := calls.foldl declare {}

theorem Mirrors.declare {t : Tables (Builder σ)} {g : Graph (Builder σ)} (h : t.Mirrors g)
    (call : Addition σ) : (t.declare call).Mirrors (g.declare call) :=
  List.foldl_rel (r := Mirrors) (h.addNode _ _).2 fun b _ _ _ h =>
    (h.addNode b.id b).2.addEdge b.id call.builder.id

theorem mirrors_assemble (calls : List (Addition σ)) :
    (assemble calls).Mirrors (Graph.assemble calls) :=
  List.foldl_rel (r := Mirrors) .empty fun call _ _ _ h => h.declare call

end Tables

/-! ## What can be relied on -/

/-- After calls, every identity that was mentioned has a place of its own, in order of first
mention, with the builder that was mentioned first. It has kept this place since. The edges are
those that were named, and join builders, so that no plan fails for somebody unknown. -/
structure Graph.Reliable {σ : Type} (g : Graph (Builder σ)) (calls : List (Addition σ)) : Prop where
  places : Set.BijOn g.index? {id | id ∈ (Addition.mentions calls).map Builder.id}
    (some '' Set.Iio g.size)
  unmentioned : ∀ id, id ∉ (Addition.mentions calls).map Builder.id → g.index? id = none
  first : ∀ id n, g.index? id = some n → ∃ b, g.nodes[n]? = some (id, b) ∧ b.id = id ∧
    (Addition.mentions calls).find? (fun b => b.id == id) = some b
  in_order : g.ids = ((Addition.mentions calls).map Builder.id).eraseDups
  lasting : ∀ earlier later, calls = earlier ++ later → (assemble earlier).nodes <+: g.nodes ∧
    ∀ id n, (assemble earlier).index? id = some n → g.index? id = some n
  edges : ∀ e, e ∈ g.edges ↔
    ∃ call ∈ calls, ∃ b ∈ call.prerequisites, e = ⟨b.id, call.builder.id⟩
  ends : ∀ e ∈ g.edges, g.contains e.prerequisite = true ∧ g.contains e.dependent = true
  planned : ∀ id, g.plan none ≠ .error (.unknown id)

section Reliable

variable {σ : Type}

theorem Graph.contains_iff_index? {β : Type} {g : Graph β} {id : BuilderId} :
    g.contains id = true ↔ ∃ n, g.index? id = some n := by
  rw [Graph.contains_iff]
  simp only [Graph.index?_eq_some_iff]

theorem Graph.getElem?_of_index? {β : Type} {g : Graph β} {id : BuilderId} {n : Nat} {b : β}
    (hn : g.index? id = some n) (hb : g.get? id = some b) : g.nodes[n]? = some (id, b) := by
  obtain ⟨hlt, hid⟩ := (g.index?_eq_some_iff id n).1 hn
  unfold Graph.get? at hb
  obtain ⟨node, hnode, rfl⟩ := Option.map_eq_some_iff.1 hb
  have hkey := List.find?_some hnode
  rw [beq_iff_eq] at hkey
  obtain ⟨m, hm⟩ := List.mem_iff_getElem?.1 (List.mem_of_find?_eq_some hnode)
  have hm' : m < g.size := (List.getElem?_eq_some_iff.1 hm).1
  have hplace : m = n := by
    refine g.idAt_injective hm' hlt ?_
    rw [hid, g.idAt_of_getElem? hm, hkey]
  rw [← hplace, hm, ← hkey]

theorem Graph.reliable (calls : List (Addition σ)) : (assemble calls).Reliable calls := by
  have h := assembled calls
  have hmem (id : BuilderId) : id ∈ (Addition.mentions calls).map Builder.id ↔
      ∃ n, (assemble calls).index? id = some n := by
    rw [← Graph.contains_iff_index?]
    unfold Graph.contains
    rw [List.contains_iff_mem, h.ids, List.mem_eraseDups]
  have hends : ∀ e ∈ (assemble calls).edges, (assemble calls).contains e.prerequisite = true ∧
      (assemble calls).contains e.dependent = true := by
    intro e he
    obtain ⟨call, hcall, b, hb, rfl⟩ := Addition.mem_needs.1 ((h.edges e).1 he)
    rw [Graph.contains_iff_index?, Graph.contains_iff_index?, ← hmem, ← hmem]
    have hmention {b : Builder σ} (hb : b ∈ call.builder :: call.prerequisites) :
        b.id ∈ (Addition.mentions calls).map Builder.id :=
      List.mem_map_of_mem (List.mem_flatMap.2 ⟨call, hcall, hb⟩)
    exact ⟨hmention (List.mem_cons_of_mem _ hb), hmention List.mem_cons_self⟩
  refine ⟨⟨?_, ?_, ?_⟩, ?_, ?_, h.ids, ?_, ?_, hends, ?_⟩
  · intro id hid
    obtain ⟨n, hn⟩ := (hmem id).1 hid
    exact ⟨n, ((Graph.index?_eq_some_iff _ id n).1 hn).1, hn.symm⟩
  · intro id hid id' _ heq
    obtain ⟨n, hn⟩ := (hmem id).1 hid
    obtain ⟨-, rfl⟩ := (Graph.index?_eq_some_iff _ id n).1 hn
    exact ((Graph.index?_eq_some_iff _ id' n).1 (heq.symm.trans hn)).2
  · rintro _ ⟨n, hn, rfl⟩
    have hindex := (assemble calls).index?_idAt hn
    exact ⟨_, (hmem _).2 ⟨n, hindex⟩, hindex⟩
  · intro id hid
    rw [hmem, not_exists] at hid
    exact Option.eq_none_iff_forall_ne_some.2 hid
  · intro id n hn
    have hsome := (assemble calls).isSome_get?.2
      (List.contains_iff_mem.1 (Graph.contains_iff_index?.2 ⟨n, hn⟩))
    obtain ⟨b, hb⟩ := Option.isSome_iff_exists.1 hsome
    have hfirst := (h.first id).symm.trans hb
    have hkey := List.find?_some hfirst
    rw [beq_iff_eq] at hkey
    exact ⟨b, Graph.getElem?_of_index? hn hb, hkey, hfirst⟩
  · rintro earlier later rfl
    have hnodes := Graph.prefix_assemble earlier later
    exact ⟨hnodes, fun id n hn => Graph.index?_of_prefix hnodes hn⟩
  · exact fun e => (h.edges e).trans Addition.mem_needs
  · intro id
    have hselect := Selection.select_cases (assemble calls) none
    have hknown : (assemble calls).unknown? none = none :=
      (assemble calls).unknown?_eq_none hends nofun
    rw [hknown] at hselect
    obtain ⟨s, hs, -⟩ := hselect
    exact Selection.plan_ne_unknown hs id

end Reliable

namespace Context

variable {σ : Type}

/-- Running a build leaves its builders, and whatever edges transformations made of the edges. -/
theorem graph_execute (c : Context σ) (schedule : Schedule) (root : Option BuilderId)
    (t : Traced σ) : ∃ edges : EdgeSet,
      (c.execute schedule root t).1.2.graph = { c.graph with edges } := by
  unfold execute
  cases hhas : c.hasRun with
  | true => exact ⟨c.graph.edges, rfl⟩
  | false =>
    simp only [Action.bind_apply, Bool.false_eq_true, ↓reduceIte]
    generalize applyTransformations 0 c.transformations c.graph.edges _ = answer
    obtain ⟨⟨go, edges⟩, t₁⟩ := answer
    refine ⟨edges, ?_⟩
    cases go with
    | error n => rfl
    | ok =>
      cases hplan : ({ c.graph with edges } : Graph (Builder σ)).plan root with
      | error e => rfl
      | ok plan => rfl

/-- Any calls on a build that has not run are accepted, and their graph can be relied on. Whatever
is made of its edges, such as by transformations in a run, the builders next to one are found by the
edges, and three tables that are kept in step find the same. -/
theorem addAll_assembles (config : Config) (transformations : List (Transformation σ))
    (results : SortedMap BuilderId Outputs) (calls : List (Addition σ)) (t : Traced σ) :
    let c : Context σ := { config, transformations, results, graph := Graph.assemble calls }
    (∃ t', ({ config, transformations, results } : Context σ).addAll calls t =
      ((calls.map fun _ => .ok (), c), t') ∧ t'.world = t.world) ∧
    c.graph.Reliable calls ∧
    (∀ schedule root t, ∃ edges : EdgeSet,
      (c.execute schedule root t).1.2.graph = { c.graph with edges }) ∧
    ∀ edges : EdgeSet,
      let g : Graph (Builder σ) := { c.graph with edges }
      let tables := { Tables.assemble calls with edges }
      tables.Mirrors g ∧
      (∀ a, g.Listed (g.dependents a) (fun b => ⟨a, b⟩ ∈ edges) ∧
        tables.dependents a = g.dependents a) ∧
      ∀ b, g.Listed (g.prerequisites b) (fun a => ⟨a, b⟩ ∈ edges) ∧
        tables.prerequisites b = g.prerequisites b := by
  intro c
  obtain ⟨t', heq, htold⟩ :=
    addAll_eq (c := { config, transformations, results }) rfl calls t
  refine ⟨⟨t', heq, htold.world_eq⟩, Graph.reliable calls, c.graph_execute, fun edges => ?_⟩
  have hmirrors := (Tables.mirrors_assemble calls).edit edges
  refine ⟨hmirrors, fun a => ⟨Graph.listed_dependents _ a, hmirrors.dependents_eq a⟩, fun b => ?_⟩
  exact ⟨Graph.listed_prerequisites _ b, hmirrors.prerequisites_eq b⟩

end Context

end Rebuild
