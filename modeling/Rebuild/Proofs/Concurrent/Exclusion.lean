import Rebuild.Proofs.Concurrent.Calls

/-!
# Calls of one identity keep apart

Of the calls of an identity at most one has the lock. So the builder inside never runs
twice at the same time: whenever a run is started, the one before it has ended.

* `Flights.Guarded`: locks belong to identities, and each is held by one call.
* `Flights.Guarded.at_iff`: a call that has the lock is alone in what it does.
* `Apart`: no run is started before the one before it has ended.
* `Flights.sequential_of_steps`: runs keep apart, whatever happens.
-/
namespace Rebuild

namespace Phase

/-- The lock that a call knows of. -/
def lock? : Phase → Option Nat
  | waiting lock | holding lock _ => some lock
  | _ => none

/-- The lock that a call has. -/
def held? : Phase → Option Nat
  | holding lock _ => some lock
  | _ => none

end Phase

namespace Work

def isAwait : Work → Bool
  | await _ => true
  | _ => false

def isStore : Work → Bool
  | store _ _ => true
  | _ => false

theorem isAwait_of_isOwn {work : Work} (h : work.isOwn = true) : work.isAwait = false := by
  cases work <;> first | rfl | cases h

end Work

/-- A run for an identity has been started and has not ended. -/
def isOpen (id : BuilderId) : List Mark → Bool
  | [] => false
  | .surveyed _ _ :: earlier => isOpen id earlier
  | .started other :: earlier => other = id || isOpen id earlier
  | .ended other _ _ :: earlier => other ≠ id && isOpen id earlier

/-- Whenever a run is started, those of its identity that were started before have ended. -/
def Apart : List Mark → Prop
  | [] => True
  | .surveyed _ _ :: earlier => Apart earlier
  | .started id :: earlier => isOpen id earlier = false ∧ Apart earlier
  | .ended _ _ _ :: earlier => Apart earlier

namespace Flights

variable {ρ : Type} {s s' : Flights ρ} {i j lock : Nat} {f g flight : Flight ρ} {phase : Phase}

theorem getElem?_set_cases {α : Type} {l : List α} {a b : α} (h : (l.set i a)[j]? = some b) :
    j = i ∧ b = a ∨ j ≠ i ∧ l[j]? = some b := by
  rw [List.getElem?_set] at h
  split at h
  next heq =>
    split at h
    · exact .inl ⟨heq.symm, (Option.some.inj h).symm⟩
    · cases h
  next hne => exact .inr ⟨fun e => hne e.symm, h⟩

/-! ## Locks -/

/-- The locks that calls know are those of their identities, and no two calls hold the same. -/
structure Guarded (s : Flights ρ) : Prop where
  nodup : s.table.identities.Nodup
  granted : ∀ (i : Nat) (f : Flight ρ) (lock : Nat), s.calls[i]? = some f →
    f.phase.lock? = some lock → s.table.Grants f.builder.id lock
  taken : ∀ (i : Nat) (f : Flight ρ) (lock : Nat), s.calls[i]? = some f →
    f.phase.held? = some lock → lock ∈ s.taken
  single : ∀ (i j : Nat) (f g : Flight ρ) (lock : Nat), s.calls[i]? = some f →
    s.calls[j]? = some g → f.phase.held? = some lock → g.phase.held? = some lock → i = j

theorem phase_start {builders : List (Builder (Site ρ))} {t : Traced (Site ρ)}
    (h : (start builders t).calls[i]? = some f) : f.phase = .called := by
  obtain ⟨b, -, rfl⟩ := List.mem_map.1 (List.mem_of_getElem? h)
  rfl

theorem Guarded.start (builders : List (Builder (Site ρ))) (t : Traced (Site ρ)) :
    (start builders t).Guarded := by
  refine ⟨List.Pairwise.nil, ?_, ?_, ?_⟩
  · intro i f lock hf hlock
    rw [phase_start hf] at hlock
    cases hlock
  · intro i f lock hf hlock
    rw [phase_start hf] at hlock
    cases hlock
  · intro i j f g lock hf _ hlock
    rw [phase_start hf] at hlock
    cases hlock

theorem Guarded.eq_of_id (h : s.Guarded) {lock' : Nat} {work work' : Work}
    (hf : s.calls[i]? = some f) (hg : s.calls[j]? = some g) (hid : f.builder.id = g.builder.id)
    (hfp : f.phase = .holding lock work) (hgp : g.phase = .holding lock' work') : i = j := by
  have hlock := h.granted i f lock hf (by rw [hfp]; rfl)
  have hlock' := h.granted j g lock' hg (by rw [hgp]; rfl)
  rw [hid] at hlock
  cases IdentityLocks.Grants.unique h.nodup hlock hlock'
  exact h.single i j f g lock hf hg (by rw [hfp]; rfl) (by rw [hgp]; rfl)

/-- A call moves. What has to be shown is about the lock it then has, and about the locks of the
others. -/
theorem Guarded.move (h : s.Guarded) (hcalls : s'.calls = s.calls.set i { flight with phase })
    (hnodup : s'.table.identities.Nodup)
    (hgrants : ∀ id lock, s.table.Grants id lock → s'.table.Grants id lock)
    (hknown : ∀ lock, phase.lock? = some lock → s'.table.Grants flight.builder.id lock)
    (hheld : ∀ lock, phase.held? = some lock → lock ∈ s'.taken ∧
      ∀ (j : Nat) (g : Flight ρ), j ≠ i → s.calls[j]? = some g → g.phase.held? ≠ some lock)
    (htaken : ∀ (j : Nat) (g : Flight ρ) (lock : Nat), j ≠ i → s.calls[j]? = some g →
      g.phase.held? = some lock → lock ∈ s'.taken) : s'.Guarded := by
  refine ⟨hnodup, ?_, ?_, ?_⟩
  · intro j g lock hg hlock
    rw [hcalls] at hg
    rcases getElem?_set_cases hg with ⟨rfl, rfl⟩ | ⟨-, hg⟩
    · exact hknown lock hlock
    · exact hgrants _ lock (h.granted j g lock hg hlock)
  · intro j g lock hg hlock
    rw [hcalls] at hg
    rcases getElem?_set_cases hg with ⟨rfl, rfl⟩ | ⟨hne, hg⟩
    · exact (hheld lock hlock).1
    · exact htaken j g lock hne hg hlock
  · intro j k f g lock hf hg hf' hg'
    rw [hcalls] at hf hg
    rcases getElem?_set_cases hf with ⟨hj, rfl⟩ | ⟨hj, hf₀⟩ <;>
      rcases getElem?_set_cases hg with ⟨hk, rfl⟩ | ⟨hk, hg₀⟩
    · exact hj.trans hk.symm
    · exact ((hheld lock hf').2 k g hk hg₀ hg').elim
    · exact ((hheld lock hg').2 j f hj hf₀ hf').elim
    · exact h.single j k f g lock hf₀ hg₀ hf' hg'

theorem Guarded.goOn {work work' : Work} (h : s.Guarded) (call : s.calls[i]? = some flight)
    (hphase : flight.phase = .holding lock work)
    (hcalls : s'.calls = s.calls.set i { flight with phase := .holding lock work' })
    (htable : s'.table = s.table) (htaken : s'.taken = s.taken) : s'.Guarded := by
  have hheld : flight.phase.held? = some lock := by rw [hphase]; rfl
  refine h.move hcalls (htable ▸ h.nodup) (fun _ _ hgrants => htable ▸ hgrants) ?_ ?_ ?_
  · intro lock' hlock
    cases hlock
    exact htable ▸ h.granted i flight lock call (by rw [hphase]; rfl)
  · intro lock' hlock
    cases hlock
    refine ⟨htaken ▸ h.taken i flight lock call hheld, ?_⟩
    intro j g hne hg hg'
    exact hne (h.single j i g flight lock hg call hg' hheld)
  · intro j g lock' _ hg hg'
    exact htaken ▸ h.taken j g lock' hg hg'

theorem Guarded.release {work : Work} {result : Except RunFailure Outputs} (h : s.Guarded)
    (call : s.calls[i]? = some flight) (hphase : flight.phase = .holding lock work)
    (hcalls : s'.calls = s.calls.set i { flight with phase := .returned result })
    (htable : s'.table = s.table) (htaken : s'.taken = s.taken.filter (· ≠ lock)) :
    s'.Guarded := by
  have hheld : flight.phase.held? = some lock := by rw [hphase]; rfl
  refine h.move hcalls (htable ▸ h.nodup) (fun _ _ hgrants => htable ▸ hgrants) nofun nofun ?_
  intro j g lock' hne hg hg'
  rw [htaken, List.mem_filter, decide_eq_true_eq]
  refine ⟨h.taken j g lock' hg hg', fun e => hne ?_⟩
  subst e
  exact h.single j i g flight lock' hg call hg' hheld

theorem Guarded.step (h : s.Guarded) (hstep : Step s s') : s'.Guarded := by
  cases hstep with
  | @ask i flight call phase =>
    refine h.move rfl (IdentityLocks.nodup_get h.nodup _) (fun _ _ hgrants => hgrants.get _) ?_
      nofun fun j g lock _ => h.taken j g lock
    intro lock hlock
    cases hlock
    exact IdentityLocks.grants_get _ _
  | @take i flight lock call phase free =>
    refine h.move rfl h.nodup (fun _ _ hgrants => hgrants) ?_ ?_ ?_
    · intro lock' hlock
      cases hlock
      exact h.granted i flight lock call (by rw [phase]; rfl)
    · intro lock' hlock
      cases hlock
      refine ⟨List.mem_cons_self, ?_⟩
      intro j g _ hg hg'
      exact free (h.taken j g lock hg hg')
    · intro j g lock' _ hg hg'
      exact List.mem_cons_of_mem _ (h.taken j g lock' hg hg')
  | proceed call phase own => exact h.goOn call phase rfl rfl rfl
  | finish call phase result => exact h.goOn call phase rfl rfl rfl
  | panic call phase may => exact h.release call phase rfl rfl rfl
  | release call phase => exact h.release call phase rfl rfl rfl
  | drift t drifts => exact ⟨h.nodup, h.granted, h.taken, h.single⟩

theorem Guarded.steps (h : s.Guarded) (hsteps : Steps s s') : s'.Guarded := by
  induction hsteps with
  | refl => exact h
  | tail _ hstep ih => exact ih.step hstep

/-! ## Runs -/

/-- A call of an identity is at a piece of work of some kind. -/
def At (s : Flights ρ) (kind : Work → Bool) (id : BuilderId) : Prop :=
  ∃ (i : Nat) (f : Flight ρ) (lock : Nat) (work : Work), s.calls[i]? = some f ∧
    f.builder.id = id ∧ f.phase = .holding lock work ∧ kind work = true

theorem At.move {kind : Work → Bool} {id : BuilderId} (h : s.At kind id)
    (call : s.calls[i]? = some flight) (hcalls : s'.calls = s.calls.set i { flight with phase })
    (hother : flight.builder.id = id → ∀ lock work, flight.phase = .holding lock work →
      kind work = false) : s'.At kind id := by
  obtain ⟨j, g, lock, work, hg, hid, hphase, hkind⟩ := h
  refine ⟨j, g, lock, work, ?_, hid, hphase, hkind⟩
  have hne : i ≠ j := by
    rintro rfl
    cases call.symm.trans hg
    cases (hother hid lock work hphase).symm.trans hkind
  rw [hcalls, List.getElem?_set_ne hne, hg]

/-- A call that has the lock of its identity is alone in that. -/
theorem Guarded.at_iff {kind : Work → Bool} {work : Work} (h : s.Guarded)
    (call : s.calls[i]? = some flight) (hphase : flight.phase = .holding lock work) :
    s.At kind flight.builder.id ↔ kind work = true := by
  refine ⟨fun ⟨j, g, lock', work', hg, hid, hgp, hkind⟩ => ?_, fun hkind =>
    ⟨i, flight, lock, work, call, rfl, hphase, hkind⟩⟩
  cases h.eq_of_id call hg hid.symm hphase hgp
  cases call.symm.trans hg
  cases hphase.symm.trans hgp
  exact hkind

/-- No run was started too early, and those that are open are awaited. -/
structure Sequential (s : Flights ρ) : Prop where
  apart : Apart s.marks
  awaited : ∀ id, isOpen id s.marks = true → s.At Work.isAwait id

theorem Sequential.move (h : s.Sequential) (call : s.calls[i]? = some flight)
    (hcalls : s'.calls = s.calls.set i { flight with phase })
    (hother : ∀ lock work, flight.phase = .holding lock work → work.isAwait = false)
    (happart : Apart s'.marks) (hopen : ∀ id, isOpen id s'.marks = isOpen id s.marks) :
    s'.Sequential :=
  ⟨happart, fun id hid => (h.awaited id (hopen id ▸ hid)).move call hcalls fun _ => hother⟩

theorem Sequential.ended {result : Except RunFailure Outputs} {target : MemoryDirectory}
    (h : s.Sequential) (call : s.calls[i]? = some flight)
    (hcalls : s'.calls = s.calls.set i { flight with phase })
    (hmarks : s'.marks = .ended flight.builder.id result target :: s.marks) : s'.Sequential := by
  refine ⟨hmarks ▸ h.apart, fun id hid => ?_⟩
  rw [hmarks, isOpen, Bool.and_eq_true, decide_eq_true_eq] at hid
  exact (h.awaited id hid.2).move call hcalls fun e => (hid.1 e).elim

theorem Sequential.started {work : Work} {fp : Fingerprint} (h : s.Sequential) (hs : s.Guarded)
    (call : s.calls[i]? = some flight) (hphase : flight.phase = .holding lock work)
    (hwork : work.isAwait = false)
    (hcalls : s'.calls = s.calls.set i { flight with phase := .holding lock (.await fp) })
    (hmarks : s'.marks = .started flight.builder.id :: s.marks) : s'.Sequential := by
  refine ⟨hmarks ▸ ⟨Bool.eq_false_iff.2 fun hopen => ?_, h.apart⟩, fun id hid => ?_⟩
  · cases hwork.symm.trans ((hs.at_iff call hphase).1 (h.awaited _ hopen))
  · by_cases heq : flight.builder.id = id
    · obtain ⟨hlt, -⟩ := List.getElem?_eq_some_iff.1 call
      refine ⟨i, { flight with phase := .holding lock (.await fp) }, lock, .await fp, ?_, heq, rfl,
        rfl⟩
      rw [hcalls, List.getElem?_set_self hlt]
    · rw [hmarks, isOpen, decide_eq_false heq, Bool.false_or] at hid
      exact (h.awaited id hid).move call hcalls fun e => (heq e).elim

theorem Sequential.step (h : s.Sequential) (hs : s.Guarded) (hstep : Step s s') :
    s'.Sequential := by
  have hat {flight : Flight ρ} {work : Work} {lock : Nat}
      (hphase : flight.phase = .holding lock work) (hwork : work.isAwait = false) (lock' : Nat)
      (work' : Work) (hphase' : flight.phase = .holding lock' work') : work'.isAwait = false := by
    cases hphase.symm.trans hphase'
    exact hwork
  cases hstep with
  | ask call phase =>
    exact h.move call rfl (fun _ _ => by rw [phase]; nofun) h.apart fun _ => rfl
  | take call phase free =>
    exact h.move call rfl (fun _ _ => by rw [phase]; nofun) h.apart fun _ => rfl
  | @proceed i flight lock work call phase own =>
    have hwork := Work.isAwait_of_isOwn own
    have hcalls : (s.proceed i flight lock work).calls =
      s.calls.set i { flight with phase := .holding lock (s.piece flight work).1 } := rfl
    have hmarks : (s.proceed i flight lock work).marks =
      (s.piece flight work).1.marks flight.builder.id ++ s.marks := rfl
    generalize s.proceed i flight lock work = s' at hcalls hmarks ⊢
    generalize (s.piece flight work).1 = work' at hcalls hmarks
    cases work' with
    | lookUp fp =>
      exact h.move call hcalls (hat phase hwork) (hmarks ▸ h.apart) fun _ => by rw [hmarks]; rfl
    | await fp => exact h.started hs call phase hwork hcalls hmarks
    | _ =>
      exact h.move call hcalls (hat phase hwork) (hmarks ▸ h.apart) fun _ => by rw [hmarks]; rfl
  | finish call phase result => exact h.ended call rfl rfl
  | @panic i flight lock work call phase may =>
    cases work with
    | await fp => exact h.ended call rfl rfl
    | _ => exact h.move call rfl (hat phase rfl) h.apart fun _ => rfl
  | release call phase => exact h.move call rfl (hat phase rfl) h.apart fun _ => rfl
  | drift t drifts => exact ⟨h.apart, h.awaited⟩

theorem sequential_of_steps {builders : List (Builder (Site ρ))} {t : Traced (Site ρ)}
    (hsteps : Steps (start builders t) s) : s.Sequential := by
  induction hsteps with
  | refl => exact ⟨trivial, nofun⟩
  | tail hsteps hstep ih => exact ih.step ((Guarded.start builders t).steps hsteps) hstep

end Flights

end Rebuild
