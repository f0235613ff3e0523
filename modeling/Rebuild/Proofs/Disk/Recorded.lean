import Rebuild.Proofs.Disk.Meets

/-!
# What operations put on record

The changes that an operation makes are on record, one by one, so that it is known
what the disk holds if the program stops between two of them. Rules like those of
`DiskM.Meets` tell the changes of an operation from those of its parts.

* `DiskOp.applyAll`, `DiskOp.Along`: the disk after changes, and what holds of each
  of them where it is made.
* `DiskM.Traces`: how an operation ends, and by which changes.
* `DiskM.Makes`: each change of an operation is as it should be.
-/
namespace Rebuild

namespace DiskOp

/-- The disk after changes, made in order. -/
def applyAll (ops : List DiskOp) (d : Disk) : Disk := ops.foldl (fun d op => op.apply d) d

/-- Each change is as it should be on the disk where it is made. -/
def Along (ok : Disk → DiskOp → Prop) : Disk → List DiskOp → Prop
  | _, [] => True
  | d, op :: ops => ok d op ∧ Along ok (op.apply d) ops

theorem applyAll_append (ops ops' : List DiskOp) (d : Disk) :
    applyAll (ops ++ ops') d = applyAll ops' (applyAll ops d) := List.foldl_append

theorem applyAll_cons (op : DiskOp) (ops : List DiskOp) (d : Disk) :
    applyAll (op :: ops) d = applyAll ops (op.apply d) := rfl

variable {ok ok' : Disk → DiskOp → Prop}

theorem along_append : ∀ {ops ops' : List DiskOp} {d : Disk},
    Along ok d (ops ++ ops') ↔ Along ok d ops ∧ Along ok (applyAll ops d) ops'
  | [], _, _ => ⟨fun h => ⟨trivial, h⟩, And.right⟩
  | op :: ops, ops', d => by
    rw [List.cons_append, Along, Along, along_append, applyAll_cons, and_assoc]

theorem Along.of_isPrefix {ops ops' : List DiskOp} {d : Disk} (h : Along ok d ops)
    (hinitial : ops' <+: ops) : Along ok d ops' := by
  obtain ⟨rest, rfl⟩ := hinitial
  exact (along_append.1 h).1

theorem Along.mono (hok : ∀ d op, ok d op → ok' d op) : ∀ {ops : List DiskOp} {d : Disk},
    Along ok d ops → Along ok' d ops
  | [], _, _ => trivial
  | _ :: _, _, ⟨hop, hrest⟩ => ⟨hok _ _ hop, hrest.mono hok⟩

theorem Along.forall_mem {P : DiskOp → Prop} (hok : ∀ d op, ok d op → P op) :
    ∀ {ops : List DiskOp} {d : Disk}, Along ok d ops → ∀ op ∈ ops, P op
  | [], _, _, _, hmem => (List.not_mem_nil hmem).elim
  | _ :: _, _, ⟨hop, hrest⟩, _, hmem =>
    (List.mem_cons.1 hmem).elim (fun heq => heq ▸ hok _ _ hop) (hrest.forall_mem hok _)

theorem Along.invariant {P : Disk → Prop} (hstep : ∀ d op, P d → ok d op → P (op.apply d)) :
    ∀ {ops : List DiskOp} {d : Disk}, Along ok d ops → P d → P (applyAll ops d)
  | [], _, _, h => h
  | _ :: _, _, ⟨hop, hrest⟩, h => hrest.invariant hstep (hstep _ _ h hop)

end DiskOp

namespace DiskM
open DiskOp

variable {ε δ α β : Type} {d : Disk}

/-- Run on the disk, the operation ends by these changes as the condition says. -/
def Traces (x : DiskM ε α) (d : Disk) (post : Except ε α → List DiskOp → Prop) : Prop :=
  ∀ changes, ∃ ops,
    ((ExceptT.run x).run ⟨d, changes⟩).2 = ⟨applyAll ops d, ops.reverse ++ changes⟩ ∧
      post ((ExceptT.run x).run ⟨d, changes⟩).1 ops

section Rules

variable {x : DiskM ε α} {f : α → DiskM ε β} {p : Except ε α → List DiskOp → Prop}
  {post post' : Except ε α → List DiskOp → Prop}

/-- What is on record after a run on a disk, and what the disk holds then. -/
theorem Traces.run (h : x.Traces d post) :
    post (x.run d).1 (x.changes d) ∧ (x.run d).2 = applyAll (x.changes d) d := by
  obtain ⟨ops, hj, hpost⟩ := h []
  have hchanges : x.changes d = ops := by
    unfold changes
    rw [hj, List.append_nil, List.reverse_reverse]
  refine ⟨hchanges ▸ hpost, ?_⟩
  rw [hchanges]
  exact congrArg Journal.disk hj

theorem Traces.mono (h : x.Traces d post) (hpost : ∀ result ops, post result ops →
    post' result ops) : x.Traces d post' := by
  intro changes
  obtain ⟨ops, hj, hops⟩ := h changes
  exact ⟨ops, hj, hpost _ _ hops⟩

theorem Traces.and_meets {q : Except ε α → Disk → Prop} (h : x.Traces d post) (h' : x.Meets d q) :
    x.Traces d fun result ops => post result ops ∧ q result (applyAll ops d) := by
  intro changes
  obtain ⟨ops, hj, hops⟩ := h changes
  have hq := h' changes
  rw [hj] at hq
  exact ⟨ops, hj, hops, hq⟩

theorem traces_pure {a : α} (h : post (.ok a) []) : (pure a : DiskM ε α).Traces d post :=
  fun _ => ⟨[], rfl, h⟩

theorem traces_throw {e : ε} (h : post (.error e) []) : (throw e : DiskM ε α).Traces d post :=
  fun _ => ⟨[], rfl, h⟩

theorem traces_ask {question : Disk → Except ε α} (h : post (question d) []) :
    (ask question).Traces d post := fun _ => ⟨[], rfl, h⟩

theorem traces_change {op : DiskOp} {post : Except ε Unit → List DiskOp → Prop}
    (h : post (.ok ()) [op]) : (change op : DiskM ε Unit).Traces d post :=
  fun _ => ⟨[op], rfl, h⟩

theorem Traces.bind {post : Except ε β → List DiskOp → Prop} (h : x.Traces d p)
    (hok : ∀ a ops, p (.ok a) ops →
      (f a).Traces (applyAll ops d) fun result ops' => post result (ops ++ ops'))
    (herror : ∀ e ops, p (.error e) ops → post (.error e) ops) : (x >>= f).Traces d post := by
  intro changes
  obtain ⟨ops, hj, hops⟩ := h changes
  rw [ExceptT.run_bind, StateT.run_bind]
  generalize (ExceptT.run x).run ⟨d, changes⟩ = ran at hj hops ⊢
  obtain ⟨result, j⟩ := ran
  cases hj
  cases result with
  | error e => exact ⟨ops, rfl, herror e ops hops⟩
  | ok a =>
    obtain ⟨ops', hj', hops'⟩ := hok a ops hops (ops.reverse ++ changes)
    refine ⟨ops ++ ops', ?_, hops'⟩
    rw [applyAll_append, List.reverse_append, List.append_assoc]
    exact hj'

theorem Traces.disk_bind {f : Disk → DiskM ε β} {post : Except ε β → List DiskOp → Prop}
    (h : (f d).Traces d post) : (disk >>= f).Traces d post := h

theorem Traces.ask_bind {question : Disk → Except ε α} {post : Except ε β → List DiskOp → Prop}
    (hok : ∀ a, question d = .ok a → (f a).Traces d post)
    (herror : ∀ e, question d = .error e → post (.error e) []) :
    (ask question >>= f).Traces d post := by
  refine Traces.bind (p := fun result ops => ops = [] ∧ question d = result)
    (traces_ask ⟨rfl, rfl⟩) ?_ ?_
  · intro a ops h
    obtain ⟨rfl, h⟩ := h
    exact hok a h
  · intro e ops h
    obtain ⟨rfl, h⟩ := h
    exact herror e h

theorem Traces.change_bind {op : DiskOp} {f : Unit → DiskM ε β}
    {post : Except ε β → List DiskOp → Prop}
    (h : (f ()).Traces (op.apply d) fun result ops => post result (op :: ops)) :
    (change op >>= f).Traces d post := by
  refine Traces.bind (p := fun result ops => result = .ok () ∧ ops = [op])
    (traces_change ⟨rfl, rfl⟩) ?_ fun _ _ hd => nomatch hd.1
  intro _ ops ⟨_, heq⟩
  subst heq
  exact h

theorem Traces.tryCatch {handle : ε → DiskM ε α} (h : x.Traces d p)
    (hok : ∀ a ops, p (.ok a) ops → post (.ok a) ops)
    (herror : ∀ e ops, p (.error e) ops →
      (handle e).Traces (applyAll ops d) fun result ops' => post result (ops ++ ops')) :
    (MonadExcept.tryCatch x handle).Traces d post := by
  intro changes
  obtain ⟨ops, hj, hops⟩ := h changes
  rw [ExceptT.run_tryCatch, StateT.run_bind]
  generalize (ExceptT.run x).run ⟨d, changes⟩ = ran at hj hops ⊢
  obtain ⟨result, j⟩ := ran
  cases hj
  cases result with
  | ok a => exact ⟨ops, rfl, hok a ops hops⟩
  | error e =>
    obtain ⟨ops', hj', hops'⟩ := herror e ops hops (ops.reverse ++ changes)
    refine ⟨ops ++ ops', ?_, hops'⟩
    rw [applyAll_append, List.reverse_append, List.append_assoc]
    exact hj'

/-- What follows an operation sees how it ended. -/
theorem Traces.attempt_bind {f : Except ε α → DiskM δ β} {post : Except δ β → List DiskOp → Prop}
    (h : x.Traces d p) (hnext : ∀ result ops, p result ops →
      (f result).Traces (applyAll ops d) fun result ops' => post result (ops ++ ops')) :
    (attempt x >>= f).Traces d post := by
  have hattempt : (attempt x : DiskM δ (Except ε α)).Traces d fun result ops =>
      ∃ ended, result = .ok ended ∧ p ended ops := by
    intro changes
    obtain ⟨ops, hj, hops⟩ := h changes
    exact ⟨ops, hj, _, rfl, hops⟩
  refine hattempt.bind ?_ ?_
  · intro ended ops hp
    obtain ⟨_, heq, hp⟩ := hp
    cases heq
    exact hnext ended ops hp
  · intro e ops hp
    obtain ⟨_, heq, -⟩ := hp
    cases heq

theorem Traces.ignore_bind {x : DiskM ε Unit} {p : Except ε Unit → List DiskOp → Prop}
    {f : Unit → DiskM δ β} {post : Except δ β → List DiskOp → Prop} (h : x.Traces d p)
    (hnext : ∀ result ops, p result ops →
      (f ()).Traces (applyAll ops d) fun result ops' => post result (ops ++ ops')) :
    (ignore x >>= f).Traces d post := h.attempt_bind (f := fun _ => f ()) hnext

theorem Traces.mapError {g : ε → δ} (h : x.Traces d p) :
    (mapError g x).Traces d fun result ops => ∃ ended, result = ended.mapError g ∧ p ended ops := by
  intro changes
  obtain ⟨ops, hj, hops⟩ := h changes
  exact ⟨ops, hj, _, rfl, hops⟩

end Rules

/-! ## Changes that are as they should be -/

/-- Each change that the operation makes is as it should be. -/
def Makes (x : DiskM ε α) (d : Disk) (ok : Disk → DiskOp → Prop) : Prop :=
  x.Traces d fun _ ops => Along ok d ops

section Makes

variable {x : DiskM ε α} {f : α → DiskM ε β} {ok ok' : Disk → DiskOp → Prop}
  {p : Except ε α → Disk → Prop}

theorem Makes.mono (h : x.Makes d ok) (hok : ∀ d op, ok d op → ok' d op) : x.Makes d ok' :=
  Traces.mono h fun _ _ hops => hops.mono hok

theorem makes_pure {a : α} : (pure a : DiskM ε α).Makes d ok := traces_pure trivial

theorem makes_throw {e : ε} : (throw e : DiskM ε α).Makes d ok := traces_throw trivial

theorem Makes.ask_bind {question : Disk → Except ε α}
    (hok : ∀ a, question d = .ok a → (f a).Makes d ok) : (ask question >>= f).Makes d ok :=
  Traces.ask_bind hok fun _ _ => trivial

theorem Makes.disk_bind {f : Disk → DiskM ε β} (h : (f d).Makes d ok) :
    (disk >>= f).Makes d ok := h

theorem Makes.change_bind {op : DiskOp} {f : Unit → DiskM ε β} (hop : ok d op)
    (h : (f ()).Makes (op.apply d) ok) : (change op >>= f).Makes d ok :=
  Traces.change_bind (Traces.mono h fun _ _ hops => ⟨hop, hops⟩)

theorem Makes.bind (h : x.Makes d ok) (hmeets : x.Meets d p)
    (hnext : ∀ a d', p (.ok a) d' → (f a).Makes d' ok) : (x >>= f).Makes d ok := by
  refine (Traces.and_meets h hmeets).bind ?_ fun _ _ hd => hd.1
  intro a ops ⟨hops, hp⟩
  exact Traces.mono (hnext a _ hp) fun _ _ hops' => along_append.2 ⟨hops, hops'⟩

theorem Makes.tryCatch {handle : ε → DiskM ε α} (h : x.Makes d ok) (hmeets : x.Meets d p)
    (hnext : ∀ e d', p (.error e) d' → (handle e).Makes d' ok) :
    (MonadExcept.tryCatch x handle).Makes d ok := by
  refine (Traces.and_meets h hmeets).tryCatch (fun _ _ hd => hd.1) ?_
  intro e ops ⟨hops, hp⟩
  exact Traces.mono (hnext e _ hp) fun _ _ hops' => along_append.2 ⟨hops, hops'⟩

theorem Makes.attempt_bind {f : Except ε α → DiskM δ β} (h : x.Makes d ok) (hmeets : x.Meets d p)
    (hnext : ∀ result d', p result d' → (f result).Makes d' ok) :
    (attempt x >>= f).Makes d ok := by
  refine (Traces.and_meets h hmeets).attempt_bind ?_
  intro result ops ⟨hops, hp⟩
  exact Traces.mono (hnext result _ hp) fun _ _ hops' => along_append.2 ⟨hops, hops'⟩

theorem Makes.mapError {g : ε → δ} (h : x.Makes d ok) : (mapError g x).Makes d ok :=
  (Traces.mapError h).mono fun _ _ ⟨_, _, hops⟩ => hops

/-- A loop keeps an invariant about what it has still to go through, until a round fails. -/
theorem makes_forIn {γ : Type} {f : γ → PUnit → DiskM ε (ForInStep PUnit)}
    (inv : List γ → Disk → Prop)
    (hround : ∀ a rest d, inv (a :: rest) d → (f a ⟨⟩).Makes d ok ∧ (f a ⟨⟩).Meets d
      fun result d' => ∀ step, result = .ok step → step = .yield ⟨⟩ ∧ inv rest d') :
    ∀ (l : List γ) (d : Disk), inv l d → (forIn l PUnit.unit f).Makes d ok
  | [], d, _ => by
    rw [List.forIn_nil]
    exact makes_pure
  | a :: rest, d, h => by
    rw [List.forIn_cons]
    obtain ⟨hmakes, hmeets⟩ := hround a rest d h
    refine hmakes.bind hmeets ?_
    intro step d' hd
    obtain ⟨rfl, hinv⟩ := hd step rfl
    exact makes_forIn inv hround rest d' hinv

end Makes

end DiskM

end Rebuild
