import Mathlib.Logic.Relation
import Rebuild.Cache.IdentityLocks
import Rebuild.Proofs.Incremental.Recall

/-!
# Calls side by side

Cached builders may be called at the same time, any number of them, with one cache in
memory, one target and one table of locks. A call asks the table for the lock of its
identity, takes it, does its work piece by piece, and gives the lock back. Between the
pieces the others go on. A builder that panics takes its call with it; the lock is then
free again, and that it is poisoned is nothing to those who take it next.

* `Work`: what a call does while it has the lock.
* `Work.next`: one piece of it.
* `runCached_eq`: the pieces, one after the other, are a run of a cached builder.
* `Flights`: calls side by side, and what they share.
* `Flights.Step`: what may happen next.
* `Flights.alone`: a call that nobody disturbs is a run of a cached builder.
-/
namespace Rebuild

/-! ## One call -/

/-- What a call that has the lock of its identity is about to do. -/
inductive Work where
  | survey
  | lookUp (fp : Fingerprint)
  | restore (fp : Fingerprint)
  | start (fp : Fingerprint)
  /-- The builder inside is running. -/
  | await (fp : Fingerprint)
  | store (fp : Fingerprint) (outputs : Outputs)
  | leave (result : Except RunFailure Outputs)

namespace Work

variable {σ : Type}

/-- What is left to do when the builder inside is done. -/
def ran (fp : Fingerprint) : Except RunFailure Outputs → Work
  | .ok outputs => store fp outputs
  | .error failure => leave (.error failure)

/-- One piece of work. -/
def next (b : Builder σ) (cache : Cache σ) (target : Directory σ) : Work → Action σ Work
  | survey => do
    let (events, fp) := b.inputs.survey (← get).world
    Action.tellAll events
    return match fp with
      | .error e => leave (.error (.failed (.inputs e)))
      | .ok fp => lookUp fp
  | lookUp fp => do
    if ← cache.contains b.id fp then return restore fp
    Action.tell (.cacheMiss b.id)
    return start fp
  | restore fp => do
    match ← cache.restore b.id target with
    | .ok outputs =>
      Action.tell (.upToDate b.id outputs.size)
      return leave (.ok outputs)
    | .error e =>
      Action.tell (.restoreFailed b.id e)
      return start fp
  | start fp => return await fp
  | await fp => return ran fp (← b.run)
  | store fp outputs => do
    cache.keep b.id fp outputs target
    return leave (.ok outputs)
  | leave result => return leave result

theorem next_await {b : Builder σ} {cache : Cache σ} {target : Directory σ} (fp : Fingerprint)
    (t : Traced σ) : (await fp).next b cache target t = (ran fp (b.run t).1, (b.run t).2) := rfl

/-- Several pieces of work. -/
def pieces (b : Builder σ) (cache : Cache σ) (target : Directory σ) : Nat → Work → Action σ Work
  | 0, work => return work
  | n + 1, work => do (← work.next b cache target).pieces b cache target n

end Work

section Whole

variable {σ : Type} {b : Builder σ} {cache : Cache σ} {target : Directory σ}

theorem pieces_leave (n : Nat) (result : Except RunFailure Outputs) (t : Traced σ) :
    Work.pieces b cache target n (.leave result) t = (.leave result, t) := by
  induction n with
  | zero => rfl
  | succ n ih => exact ih

theorem pieces_succ (n : Nat) (work : Work) (t : Traced σ) :
    Work.pieces b cache target (n + 1) work t =
      Work.pieces b cache target n (work.next b cache target t).1
        (work.next b cache target t).2 := rfl

theorem pieces_start (n : Nat) (fp : Fingerprint) (t : Traced σ) :
    Work.pieces b cache target (n + 3) (.start fp) t =
      match b.run t with
      | (.error failure, t₁) => (.leave (.error failure), t₁)
      | (.ok outputs, t₁) => (.leave (.ok outputs), (cache.keep b.id fp outputs target t₁).2) := by
  have hrun : Work.pieces b cache target (n + 3) (.start fp) t =
      Work.pieces b cache target (n + 1) (.ran fp (b.run t).1) (b.run t).2 := rfl
  rw [hrun]
  generalize b.run t = ran
  obtain ⟨result, t₁⟩ := ran
  cases result with
  | error failure => exact pieces_leave (n + 1) _ t₁
  | ok outputs => exact pieces_leave n _ _

theorem pieces_lookUp (fp : Fingerprint) (t : Traced σ) :
    Work.pieces b cache target 5 (.lookUp fp) t =
      match cache.reuse b.id fp target t with
      | (some outputs, t₁) => (.leave (.ok outputs), t₁)
      | (none, t₁) => Work.pieces b cache target 3 (.start fp) t₁ := by
  unfold Cache.reuse
  rw [pieces_succ]
  unfold Work.next
  simp only [Action.bind_apply]
  generalize cache.contains b.id fp t = answer
  obtain ⟨found, t₁⟩ := answer
  cases found with
  | false => exact (pieces_start 1 fp _).trans (pieces_start 0 fp _).symm
  | true =>
    simp only [↓reduceIte, Action.pure_apply, Action.bind_apply]
    rw [pieces_succ]
    unfold Work.next
    simp only [Action.bind_apply]
    generalize cache.restore b.id target t₁ = restored
    obtain ⟨result, t₂⟩ := restored
    cases result with
    | error e => rfl
    | ok outputs => exact pieces_leave 3 _ _

/-- Six pieces of work are a run of a cached builder. -/
theorem pieces_survey (t : Traced σ) :
    Work.pieces b cache target 6 .survey t =
      (.leave (b.runCached cache target t).1, (b.runCached cache target t).2) := by
  have hget : (get : Action σ _) t = (t, t) := rfl
  unfold Builder.runCached
  rw [pieces_succ]
  unfold Work.next
  simp only [Action.bind_apply, hget, Action.pure_apply]
  generalize b.inputs.survey t.world = surveyed
  obtain ⟨events, fp⟩ := surveyed
  cases fp with
  | error e => exact pieces_leave 5 _ _
  | ok fp =>
    simp only [Action.bind_apply]
    rw [pieces_lookUp]
    generalize cache.reuse b.id fp target (Action.tellAll events t).2 = answer
    obtain ⟨found, t₁⟩ := answer
    cases found with
    | some outputs => rfl
    | none =>
      dsimp only
      rw [pieces_start 0]
      simp only [Action.bind_apply]
      generalize b.run t₁ = ran
      obtain ⟨result, t₂⟩ := ran
      cases result <;> rfl

end Whole

/-! ## The table of locks -/

namespace IdentityLocks

variable {locks : IdentityLocks} {id : BuilderId} {lock lock' : Nat}

/-- The table has a lock for an identity. -/
def Grants (locks : IdentityLocks) (id : BuilderId) (lock : Nat) : Prop :=
  locks.identities[lock]? = some id

theorem grants_get (locks : IdentityLocks) (id : BuilderId) :
    (locks.get id).2.Grants id (locks.get id).1 := by
  unfold get Grants
  cases h : locks.identities.idxOf? id with
  | some lock =>
    obtain ⟨hlt, heq, -⟩ := List.idxOf?_eq_some_iff.1 h
    exact List.getElem?_eq_some_iff.2 ⟨hlt, heq⟩
  | none => exact List.getElem?_concat_length

theorem Grants.get (h : locks.Grants id lock) (other : BuilderId) :
    (locks.get other).2.Grants id lock := by
  unfold IdentityLocks.get
  cases locks.identities.idxOf? other with
  | some _ => exact h
  | none =>
    obtain ⟨hlt, -⟩ := List.getElem?_eq_some_iff.1 h
    exact (List.getElem?_append_left hlt).trans h

theorem nodup_get (h : locks.identities.Nodup) (id : BuilderId) :
    (locks.get id).2.identities.Nodup := by
  unfold get
  cases hidx : locks.identities.idxOf? id with
  | some _ => exact h
  | none =>
    refine List.nodup_append.2 ⟨h, List.pairwise_singleton _ _, ?_⟩
    intro a ha b hb e
    rw [List.mem_singleton.1 hb] at e
    exact List.idxOf?_eq_none_iff.1 hidx (e ▸ ha)

theorem Grants.unique (hnodup : locks.identities.Nodup) (h : locks.Grants id lock)
    (h' : locks.Grants id lock') : lock = lock' := by
  obtain ⟨hlt, -⟩ := List.getElem?_eq_some_iff.1 h
  exact (List.getElem?_inj hlt hnodup).1 (h.trans h'.symm)

end IdentityLocks

/-! ## Calls -/

/-- How far a call is. -/
inductive Phase where
  | called
  /-- The lock is known and not yet taken. -/
  | waiting (lock : Nat)
  | holding (lock : Nat) (work : Work)
  | returned (result : Except RunFailure Outputs)

/-- A call of a cached builder. -/
structure Flight (ρ : Type) where
  builder : Builder (Site ρ)
  phase : Phase := .called

/-- Something that happens in the calls of an identity. -/
inductive Mark where
  | surveyed (id : BuilderId) (fp : Fingerprint)
  | started (id : BuilderId)
  /-- The builder inside is done, and leaves the target like this. -/
  | ended (id : BuilderId) (result : Except RunFailure Outputs) (target : MemoryDirectory)

namespace Work

/-- What has happened when this is what comes next. -/
def marks (id : BuilderId) : Work → List Mark
  | lookUp fp => [.surveyed id fp]
  | await _ => [.started id]
  | _ => []

/-- What has happened if a panic comes next. -/
def broken (id : BuilderId) (target : MemoryDirectory) : Work → List Mark
  | await _ => [.ended id (.error .panicked) target]
  | _ => []

/-- It is done by the call and not by the builder inside. -/
def isOwn : Work → Bool
  | await _ | leave _ => false
  | _ => true

/-- It may panic. Fingerprints of built-in kinds are encoded without, and outputs are read without.
-/
def mayPanic : Work → Bool
  | store fp _ => !fp.isBuiltIn
  | leave _ => false
  | _ => true

end Work

/-- Calls, and what they share. Of what has happened, the latest comes first. -/
structure Flights (ρ : Type) where
  calls : List (Flight ρ)
  now : Traced (Site ρ)
  table : IdentityLocks := {}
  taken : List Nat := []
  poisoned : List Nat := []
  marks : List Mark := []

/-- Somebody changes a site, but not the cache, and deletes nothing from the target. -/
structure Site.Drifts {ρ : Type} (s s' : Site ρ) : Prop where
  memory : s'.memory = s.memory
  holds : ∀ p, s.target.holds p = true → s'.target.holds p = true

namespace Flights

variable {ρ : Type}

/-- Nobody has gone far, and nothing is stored. -/
def start (builders : List (Builder (Site ρ))) (t : Traced (Site ρ)) : Flights ρ where
  calls := builders.map fun builder => { builder }
  now := t

/-- A call reaches a phase. -/
def move (s : Flights ρ) (i : Nat) (flight : Flight ρ) (phase : Phase) : Flights ρ :=
  { s with calls := s.calls.set i { flight with phase } }

/-- A call asks the table for the lock of its identity. -/
def ask (s : Flights ρ) (i : Nat) (flight : Flight ρ) : Flights ρ :=
  let (lock, table) := s.table.get flight.builder.id
  { s.move i flight (.waiting lock) with table }

/-- A call takes a lock. -/
def take (s : Flights ρ) (i : Nat) (flight : Flight ρ) (lock : Nat) : Flights ρ :=
  { s.move i flight (.holding lock .survey) with taken := lock :: s.taken }

/-- What a piece of work comes to. -/
def piece (s : Flights ρ) (flight : Flight ρ) (work : Work) : Work × Traced (Site ρ) :=
  work.next flight.builder (MemoryCache.cache Site.memoryPart) Site.directory s.now

/-- A call does a piece of work. -/
def proceed (s : Flights ρ) (i : Nat) (flight : Flight ρ) (lock : Nat) (work : Work) : Flights ρ :=
  let (work, now) := s.piece flight work
  { s.move i flight (.holding lock work) with
    now, marks := work.marks flight.builder.id ++ s.marks }

/-- The builder inside returns. -/
def finish (s : Flights ρ) (i : Nat) (flight : Flight ρ) (lock : Nat) (fp : Fingerprint)
    (result : Except BuilderError Outputs) : Flights ρ :=
  { s.move i flight (.holding lock (.ran fp (result.mapError .failed))) with
    marks := .ended flight.builder.id (result.mapError .failed) s.now.world.target :: s.marks }

/-- A call gives its lock back and is over. -/
def release (s : Flights ρ) (i : Nat) (flight : Flight ρ) (lock : Nat)
    (result : Except RunFailure Outputs) : Flights ρ :=
  { s.move i flight (.returned result) with taken := s.taken.filter (· ≠ lock) }

/-- A call panics. It gives its lock back while it is unwound, and poisons it. -/
def panic (s : Flights ρ) (i : Nat) (flight : Flight ρ) (lock : Nat) (work : Work) : Flights ρ :=
  { s.release i flight lock (.error .panicked) with
    poisoned := lock :: s.poisoned
    marks := work.broken flight.builder.id s.now.world.target ++ s.marks }

/-- What may happen next. -/
inductive Step : Flights ρ → Flights ρ → Prop
  | ask {s i flight} (call : s.calls[i]? = some flight) (phase : flight.phase = .called) :
      Step s (s.ask i flight)
  /-- The lock may be poisoned. -/
  | take {s i flight lock} (call : s.calls[i]? = some flight)
      (phase : flight.phase = .waiting lock) (free : lock ∉ s.taken) :
      Step s (s.take i flight lock)
  | proceed {s i flight lock work} (call : s.calls[i]? = some flight)
      (phase : flight.phase = .holding lock work) (own : work.isOwn = true) :
      Step s (s.proceed i flight lock work)
  | finish {s i flight lock fp} (call : s.calls[i]? = some flight)
      (phase : flight.phase = .holding lock (.await fp)) (result : Except BuilderError Outputs) :
      Step s (s.finish i flight lock fp result)
  | panic {s i flight lock work} (call : s.calls[i]? = some flight)
      (phase : flight.phase = .holding lock work) (may : work.mayPanic = true) :
      Step s (s.panic i flight lock work)
  | release {s i flight lock result} (call : s.calls[i]? = some flight)
      (phase : flight.phase = .holding lock (.leave result)) :
      Step s (s.release i flight lock result)
  /-- Builders that are running change what they like, and so do others. -/
  | drift {s} (t : Traced (Site ρ)) (drifts : s.now.world.Drifts t.world) :
      Step s { s with now := t }

/-- What happens, one thing after the other. -/
abbrev Steps : Flights ρ → Flights ρ → Prop := Relation.ReflTransGen Step

/-! ## A call on its own -/

section Alone

variable {s : Flights ρ} {i lock : Nat} {b : Builder (Site ρ)}

theorem getElem?_move {flight : Flight ρ} {phase : Phase} (call : s.calls[i]? = some flight) :
    (s.move i flight phase).calls[i]? = some { flight with phase } := by
  obtain ⟨hlt, -⟩ := List.getElem?_eq_some_iff.1 call
  exact List.getElem?_set_self hlt

theorem steps_pieces (hb : ∀ t : Traced (Site ρ), t.world.Drifts (b.run t).2.world) {n : Nat}
    {work : Work} {result : Except RunFailure Outputs} {t : Traced (Site ρ)}
    (call : s.calls[i]? = some ⟨b, .holding lock work⟩)
    (hpieces : work.pieces b (MemoryCache.cache Site.memoryPart) Site.directory n s.now =
      (.leave result, t)) :
    ∃ s', Steps s s' ∧ s'.calls = s.calls.set i ⟨b, .returned result⟩ ∧ s'.now = t := by
  induction n generalizing s work with
  | zero =>
    cases hpieces
    exact ⟨_, .single (.release call rfl), rfl, rfl⟩
  | succ n ih =>
    rw [pieces_succ] at hpieces
    have goOn {s₁ : Flights ρ} {work₁ : Work} (hsteps : Steps s s₁)
        (hcalls : s₁.calls = s.calls.set i ⟨b, .holding lock work₁⟩)
        (hpieces : work₁.pieces b (MemoryCache.cache Site.memoryPart) Site.directory n s₁.now =
          (.leave result, t)) :
        ∃ s', Steps s s' ∧ s'.calls = s.calls.set i ⟨b, .returned result⟩ ∧ s'.now = t := by
      obtain ⟨hlt, -⟩ := List.getElem?_eq_some_iff.1 call
      obtain ⟨s', hsteps', hcalls', hnow⟩ := ih
        (by rw [hcalls, List.getElem?_set_self hlt]) hpieces
      refine ⟨s', hsteps.trans hsteps', ?_, hnow⟩
      rw [hcalls', hcalls, List.set_set]
    cases hown : work.isOwn with
    | true => exact goOn (.single (.proceed call rfl hown)) rfl hpieces
    | false =>
      cases work with
      | leave result' =>
        cases (pieces_leave n result' s.now).symm.trans hpieces
        exact ⟨_, .single (.release call rfl), rfl, rfl⟩
      | await fp =>
        rw [Work.next_await] at hpieces
        have hdrift := Step.drift _ (hb s.now)
        generalize b.run s.now = ran at hpieces hdrift
        obtain ⟨result', t₁⟩ := ran
        have hcall : ({ s with now := t₁ } : Flights ρ).calls[i]? =
          some ⟨b, .holding lock (.await fp)⟩ := call
        match result' with
        | .ok outputs =>
          exact goOn (.tail (.single hdrift) (.finish hcall rfl (.ok outputs))) rfl hpieces
        | .error (.failed e) =>
          exact goOn (.tail (.single hdrift) (.finish hcall rfl (.error e))) rfl hpieces
        | .error .panicked =>
          cases (pieces_leave n (.error .panicked) t₁).symm.trans hpieces
          exact ⟨_, .tail (.single hdrift) (.panic hcall rfl rfl), rfl, rfl⟩
      | _ => cases hown

/-- A call that nobody disturbs is a run of the cached builder. -/
theorem alone (call : s.calls[i]? = some ⟨b, .called⟩)
    (free : (s.table.get b.id).1 ∉ s.taken)
    (hb : ∀ t : Traced (Site ρ), t.world.Drifts (b.run t).2.world) :
    let ran := b.runCached (MemoryCache.cache Site.memoryPart) Site.directory s.now
    ∃ s', Steps s s' ∧ s'.calls = s.calls.set i ⟨b, .returned ran.1⟩ ∧ s'.now = ran.2 := by
  intro ran
  have hasked : (s.ask i ⟨b, .called⟩).calls[i]? =
    some ⟨b, .waiting (s.table.get b.id).1⟩ := getElem?_move call
  have htaken : ((s.ask i ⟨b, .called⟩).take i ⟨b, .waiting (s.table.get b.id).1⟩
    (s.table.get b.id).1).calls[i]? = some ⟨b, .holding (s.table.get b.id).1 .survey⟩ :=
      getElem?_move hasked
  obtain ⟨s', hsteps, hcalls, hnow⟩ := steps_pieces hb htaken (pieces_survey s.now)
  refine ⟨s', .head (.ask call rfl) (.head (.take hasked rfl free) hsteps), ?_, hnow⟩
  rw [hcalls]
  exact (List.set_set _).trans (List.set_set _)

end Alone

end Flights

end Rebuild
