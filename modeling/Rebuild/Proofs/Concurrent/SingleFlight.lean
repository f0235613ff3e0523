import Rebuild.Proofs.Concurrent.Exclusion
import Rebuild.Proofs.Incremental.History

/-!
# One run for all calls

If the calls of an identity all see the same fingerprint, the first run that succeeds is
the last one: whoever takes the lock next finds what it left in the cache, and returns
the same. Calls of other identities make no difference, and neither do failures and
panics.

* `Work.drifts_next`, `Work.outside_next`: what pieces of work leave alone.
* `Alike`: the calls of an identity see one fingerprint, and runs that succeed leave all
  their outputs behind.
* `Flights.Settled`: what is then known of the identity.
* `Flights.single_flight`: what holds in every state that can be reached.
-/
namespace Rebuild

/-! ## What a piece of work comes to -/

/-- Of other identities nothing is touched in the cache, and nothing is deleted from the target. -/
structure Site.Outside {ρ : Type} (id : BuilderId) (s s' : Site ρ) : Prop where
  entries : ∀ other, other ≠ id → s'.memory.entries.get? other = s.memory.entries.get? other
  holds : ∀ p, s.target.holds p = true → s'.target.holds p = true

section Pieces

variable {ρ : Type} {s s' : Site ρ} {t : Traced (Site ρ)} {b : Builder (Site ρ)} {id : BuilderId}
  {fp : Fingerprint} {encoded : Bytes} {outputs : Outputs} {work : Work}

theorem Site.Drifts.of_eq (h : s' = s) : s.Drifts s' := h ▸ ⟨rfl, fun _ h => h⟩

theorem Site.Drifts.outside (h : s.Drifts s') (id : BuilderId) : s.Outside id s' :=
  ⟨fun _ _ => by rw [h.memory], h.holds⟩

theorem drifts_restore (id : BuilderId) (t : Traced (Site ρ)) :
    t.world.Drifts
      ((MemoryCache.cache Site.memoryPart).restore id Site.directory t).2.world := by
  cases hfiles : t.world.memory.files id with
  | error e =>
    have hpart : Site.memoryPart.get t.world = t.world.memory := rfl
    unfold MemoryCache.cache
    simp only [Action.bind_apply, Action.ask_apply, hpart, hfiles]
    exact .of_eq rfl
  | ok files =>
    rw [Workshop.restore_memory hfiles]
    refine ⟨rfl, fun p hp => ?_⟩
    have hp : (t.world.target.files.get? p).isSome = true := hp
    have hget := get?_overwritten t.world files p
    show ((t.world.overwritten files.entries).target.files.get? p).isSome = true
    rw [hget]
    cases files.get? p with
    | none => exact hp
    | some content => rfl

theorem outside_keep (id : BuilderId) (fp : Fingerprint) (outputs : Outputs)
    (t : Traced (Site ρ)) : t.world.Outside id
      ((MemoryCache.cache Site.memoryPart).keep id fp outputs Site.directory t).2.world := by
  have hget : (get : Action (Site ρ) _) t = (t, t) := rfl
  have hpart : Site.memoryPart.get t.world = t.world.memory := rfl
  rw [Cache.keep_world]
  unfold MemoryCache.cache
  simp only [Action.bind_apply, hget, hpart]
  cases hstore : t.world.memory.store id fp outputs (Site.directory.read · t.world) with
  | error e => exact ⟨fun _ _ => rfl, fun _ h => h⟩
  | ok c =>
    obtain ⟨encoded, files, -, -, rfl⟩ := MemoryCache.store_eq_ok hstore
    exact ⟨fun other hother => SortedMap.get?_insert_of_ne hother, fun _ h => h⟩

theorem Work.drifts_next (hown : work.isOwn = true) (hne : ∀ fp outputs, work ≠ store fp outputs) :
    t.world.Drifts
      (work.next b (MemoryCache.cache Site.memoryPart) Site.directory t).2.world := by
  cases work with
  | survey => exact .of_eq rfl
  | lookUp fp =>
    obtain ⟨htold, -⟩ := Workshop.contains_memory b.id fp t
    rw [next, Action.bind_apply]
    generalize (MemoryCache.cache Site.memoryPart).contains b.id fp t = answer at htold ⊢
    obtain ⟨found, t₁⟩ := answer
    obtain ⟨events, rfl⟩ := htold
    cases found <;> exact .of_eq rfl
  | restore fp =>
    have hrestore := drifts_restore b.id t
    rw [next, Action.bind_apply]
    generalize (MemoryCache.cache Site.memoryPart).restore b.id Site.directory t = restored
      at hrestore ⊢
    obtain ⟨result, t₁⟩ := restored
    cases result <;> exact hrestore
  | start fp => exact .of_eq rfl
  | store fp outputs => exact (hne fp outputs rfl).elim
  | await fp => cases hown
  | leave result => cases hown

theorem Work.outside_next (hown : work.isOwn = true) : t.world.Outside b.id
    (work.next b (MemoryCache.cache Site.memoryPart) Site.directory t).2.world := by
  cases work with
  | store fp outputs => exact outside_keep b.id fp outputs t
  | _ => exact (drifts_next hown nofun).outside b.id

theorem Work.next_survey :
    (survey.next b (MemoryCache.cache Site.memoryPart) Site.directory t).1 =
      match b.inputs.fingerprint t.world with
      | .error e => leave (.error (.failed (.inputs e)))
      | .ok fp => lookUp fp := rfl

theorem Work.next_lookUp (hencode : fp.encode = .ok encoded) :
    ((lookUp fp).next b (MemoryCache.cache Site.memoryPart) Site.directory t).1 =
      if (t.world.memory.entries.get? b.id).any (·.fingerprint == encoded) then restore fp
      else start fp := by
  obtain ⟨found, hfound, hcontains⟩ := @MemoryCache.contains_apply ρ b.id fp t ⟨encoded, hencode⟩
  rw [MemoryCache.contains_of_encode hencode] at hfound
  rw [Except.ok.inj hfound]
  rw [next, Action.bind_apply, hcontains]
  cases found <;> rfl

theorem Work.next_restore {entry : MemoryEntry}
    (hentry : t.world.memory.entries.get? b.id = some entry) :
    ((restore fp).next b (MemoryCache.cache Site.memoryPart) Site.directory t).1 =
      leave (.ok (.ofList entry.files.keys)) := by
  have hfiles : t.world.memory.files b.id = .ok entry.files := by
    unfold MemoryCache.files
    rw [hentry]
  rw [next, Action.bind_apply, Workshop.restore_memory hfiles]
  rfl

end Pieces

/-! ## One run that succeeds -/

/-- The outputs, if a run for an identity has succeeded. -/
def Mark.success? (id : BuilderId) : Mark → Option Outputs
  | .ended other (.ok outputs) _ => if other = id then some outputs else none
  | _ => none

/-- The outputs of all runs for an identity that succeeded, the latest first. -/
def successes (id : BuilderId) (marks : List Mark) : List Outputs :=
  marks.filterMap (Mark.success? id)

/-- The calls of an identity see fingerprints that are equal to one, and when a run succeeds, the
target holds all that it returns. -/
structure Alike (id : BuilderId) (fp : Fingerprint) (marks : List Mark) : Prop where
  seen : ∀ fp', .surveyed id fp' ∈ marks → fp.agrees fp' = true
  present : ∀ outputs target, .ended id (.ok outputs) target ∈ marks →
    ∀ p ∈ outputs, target.holds p = true

theorem Alike.earlier {id : BuilderId} {fp : Fingerprint} {more marks : List Mark}
    (h : Alike id fp (more ++ marks)) : Alike id fp marks :=
  ⟨fun fp' hmem => h.seen fp' (List.mem_append_right _ hmem),
    fun outputs target hmem => h.present outputs target (List.mem_append_right _ hmem)⟩

/-- What is known when a piece of work comes next, given the outputs of the run that succeeded, if
there was one. -/
def Work.Fits {ρ : Type} (id : BuilderId) (fp : Fingerprint) (last : Option Outputs) (s : Site ρ) :
    Work → Prop
  | survey => True
  | lookUp seen => seen = fp
  | restore seen => seen = fp ∧ s.memory.entries.get? id ≠ none
  | start seen | await seen => seen = fp ∧ last = none
  | store seen outputs => seen = fp ∧ last = some outputs ∧
    ∀ p ∈ outputs, s.target.holds p = true
  | leave (.ok outputs) => last = some outputs
  | leave (.error _) => True

def Phase.Fits {ρ : Type} (id : BuilderId) (fp : Fingerprint) (last : Option Outputs) (s : Site ρ) :
    Phase → Prop
  | holding _ work => work.Fits id fp last s
  | returned (.ok outputs) => last = some outputs
  | _ => True

theorem Work.Fits.congr {ρ : Type} {id : BuilderId} {fp : Fingerprint} {last : Option Outputs}
    {s s' : Site ρ} {work : Work} (h : work.Fits id fp last s)
    (hentry : s.memory.entries.get? id ≠ none → s'.memory.entries.get? id ≠ none)
    (hholds : ∀ p, s.target.holds p = true → s'.target.holds p = true) :
    work.Fits id fp last s' := by
  cases work with
  | restore seen => exact ⟨h.1, hentry h.2⟩
  | store seen outputs => exact ⟨h.1, h.2.1, fun p hp => hholds p (h.2.2 p hp)⟩
  | leave result => cases result <;> exact h
  | _ => exact h

theorem Phase.Fits.congr {ρ : Type} {id : BuilderId} {fp : Fingerprint} {last : Option Outputs}
    {s s' : Site ρ} {phase : Phase} (h : phase.Fits id fp last s)
    (hentry : s.memory.entries.get? id ≠ none → s'.memory.entries.get? id ≠ none)
    (hholds : ∀ p, s.target.holds p = true → s'.target.holds p = true) :
    phase.Fits id fp last s' := by
  cases phase with
  | holding lock work => exact Work.Fits.congr h hentry hholds
  | returned result => cases result <;> exact h
  | _ => exact h

namespace Flights

variable {ρ : Type} {s s' : Flights ρ} {i lock : Nat} {flight : Flight ρ} {phase : Phase}
  {id : BuilderId} {fp : Fingerprint} {encoded : Bytes} {last : Option Outputs}

/-- The entry of an identity in the cache. -/
def entryOf (s : Flights ρ) (id : BuilderId) : Option MemoryEntry :=
  s.now.world.memory.entries.get? id

/-- What is known of an identity whose calls see one fingerprint. -/
structure Settled (id : BuilderId) (fp : Fingerprint) (encoded : Bytes) (last : Option Outputs)
    (s : Flights ρ) : Prop where
  history : successes id s.marks = last.toList
  entry : ∀ entry, s.entryOf id = some entry → entry.fingerprint = encoded ∧
    ∃ outputs, last = some outputs ∧ ∀ p, p ∈ entry.files.keys ↔ p ∈ outputs
  /-- What has not been stored is about to be. -/
  stored : last ≠ none → s.entryOf id = none → s.At Work.isStore id
  calls : ∀ (i : Nat) (f : Flight ρ), s.calls[i]? = some f → f.builder.id = id →
    f.phase.Fits id fp last s.now.world

/-- A call moves, no run succeeds and nothing is stored for the identity. If it is a call of the
identity, it is not about to store, and knows what it relies on. -/
theorem Settled.move (h : s.Settled id fp encoded last) (call : s.calls[i]? = some flight)
    (hcalls : s'.calls = s.calls.set i { flight with phase })
    (hsuccesses : successes id s'.marks = successes id s.marks)
    (hentry : s'.entryOf id = s.entryOf id)
    (hholds : ∀ p, s.now.world.target.holds p = true → s'.now.world.target.holds p = true)
    (hown : flight.builder.id = id →
      (∀ lock work, flight.phase = .holding lock work → work.isStore = false) ∧
        phase.Fits id fp last s'.now.world) : s'.Settled id fp encoded last := by
  refine ⟨hsuccesses.trans h.history, fun entry hget => h.entry entry (hentry ▸ hget), ?_, ?_⟩
  · intro hlast hnone
    exact (h.stored hlast (hentry ▸ hnone)).move call hcalls fun hid => (hown hid).1
  · intro j g hg hid
    rw [hcalls] at hg
    rcases getElem?_set_cases hg with ⟨-, rfl⟩ | ⟨-, hg⟩
    · exact (hown hid).2
    · exact (h.calls j g hg hid).congr (fun hne hnone => hne (hentry.symm.trans hnone)) hholds

theorem Settled.succeeded {seen : Fingerprint} {outputs : Outputs} {target : MemoryDirectory}
    (h : s.Settled flight.builder.id fp encoded last) (hs : s.Guarded)
    (call : s.calls[i]? = some flight) (hphase : flight.phase = .holding lock (.await seen))
    (hcalls : s'.calls = s.calls.set i { flight with phase := .holding lock (.store seen outputs) })
    (hmarks : s'.marks = .ended flight.builder.id (.ok outputs) target :: s.marks)
    (hnow : s'.now = s.now) (hpresent : ∀ p ∈ outputs, s.now.world.target.holds p = true) :
    s'.Settled flight.builder.id fp encoded (some outputs) := by
  have hfits := h.calls i flight call rfl
  rw [hphase] at hfits
  obtain ⟨rfl, rfl⟩ := hfits
  obtain ⟨hlt, -⟩ := List.getElem?_eq_some_iff.1 call
  refine ⟨?_, ?_, ?_, ?_⟩
  · rw [hmarks]
    unfold successes
    have hmark : Mark.success? flight.builder.id (.ended flight.builder.id (.ok outputs) target) =
      some outputs := if_pos rfl
    rw [List.filterMap_cons_some hmark]
    exact congrArg (outputs :: ·) h.history
  · intro entry hget
    unfold entryOf at hget
    rw [hnow] at hget
    obtain ⟨-, _, hlast, -⟩ := h.entry entry hget
    cases hlast
  · intro _ _
    refine ⟨i, { flight with phase := .holding lock (.store seen outputs) }, lock,
      .store seen outputs, ?_, rfl, rfl, rfl⟩
    rw [hcalls, List.getElem?_set_self hlt]
  · intro j g hg hid
    rw [hcalls] at hg
    rw [hnow]
    rcases getElem?_set_cases hg with ⟨-, rfl⟩ | ⟨hne, hg⟩
    · exact ⟨rfl, rfl, hpresent⟩
    · have hg' := h.calls j g hg hid
      cases hgp : g.phase with
      | holding lock' work => exact (hne (hs.eq_of_id hg call hid hgp hphase)).elim
      | returned result =>
        rw [hgp] at hg'
        cases result with
        | ok outputs' => cases hg'
        | error failure => trivial
      | _ => trivial

/-- What a run left is stored. -/
theorem Settled.kept {seen : Fingerprint} {outputs : Outputs} {entry : MemoryEntry}
    (h : s.Settled flight.builder.id fp encoded last) (call : s.calls[i]? = some flight)
    (hphase : flight.phase = .holding lock (.store seen outputs))
    (hcalls : s'.calls =
      s.calls.set i { flight with phase := .holding lock (.leave (.ok outputs)) })
    (hmarks : s'.marks = s.marks)
    (hholds : ∀ p, s.now.world.target.holds p = true → s'.now.world.target.holds p = true)
    (hentry : s'.entryOf flight.builder.id = some entry) (hencoded : entry.fingerprint = encoded)
    (hkeys : ∀ p, p ∈ entry.files.keys ↔ p ∈ outputs) :
    s'.Settled flight.builder.id fp encoded last := by
  have hfits := h.calls i flight call rfl
  rw [hphase] at hfits
  obtain ⟨rfl, rfl, -⟩ := hfits
  refine ⟨hmarks ▸ h.history, ?_, ?_, ?_⟩
  · intro entry' hget
    cases hentry.symm.trans hget
    exact ⟨hencoded, outputs, rfl, hkeys⟩
  · intro _ hnone
    cases hentry.symm.trans hnone
  · intro j g hg hid
    rw [hcalls] at hg
    rcases getElem?_set_cases hg with ⟨-, rfl⟩ | ⟨-, hg⟩
    · rfl
    · refine (h.calls j g hg hid).congr (fun _ hnone => ?_) hholds
      cases hentry.symm.trans hnone

/-- What comes next after a piece of work may rely on what it has to. -/
theorem Settled.fits_piece {work : Work} (h : s.Settled flight.builder.id fp encoded last)
    (hs : s.Guarded) (hfp : fp.isBuiltIn = true) (hencode : fp.encode = .ok encoded)
    (call : s.calls[i]? = some flight) (hphase : flight.phase = .holding lock work)
    (hown : work.isOwn = true) (hstore : work.isStore = false)
    (halike : Alike flight.builder.id fp
      ((s.piece flight work).1.marks flight.builder.id ++ s.marks)) :
    (s.piece flight work).1.Fits flight.builder.id fp last s.now.world := by
  have hfits := h.calls i flight call rfl
  rw [hphase] at hfits
  unfold piece at halike ⊢
  cases work with
  | survey =>
    rw [Work.next_survey] at halike ⊢
    cases hprint : flight.builder.inputs.fingerprint s.now.world with
    | error e => trivial
    | ok seen =>
      rw [hprint] at halike
      exact ((Fingerprint.agrees_iff hfp).1 (halike.seen seen List.mem_cons_self)).symm
  | lookUp seen =>
    have hseen : seen = fp := hfits
    subst hseen
    rw [Work.next_lookUp hencode]
    cases hentry : s.now.world.memory.entries.get? flight.builder.id with
    | none =>
      refine ⟨rfl, Decidable.not_not.1 fun hlast => ?_⟩
      cases (hs.at_iff call hphase).1 (h.stored hlast hentry)
    | some entry =>
      obtain ⟨hencoded, -⟩ := h.entry entry hentry
      rw [Option.any_some, beq_iff_eq.2 hencoded, if_pos rfl]
      exact ⟨rfl, by rw [hentry]; nofun⟩
  | restore seen =>
    obtain ⟨-, hne⟩ := hfits
    obtain ⟨entry, hentry⟩ := Option.ne_none_iff_exists'.1 hne
    obtain ⟨-, outputs, hlast, hkeys⟩ := h.entry entry hentry
    rw [Work.next_restore hentry]
    refine hlast.trans (congrArg some ?_)
    exact SortedSet.ext_mem fun p => by rw [SortedSet.mem_ofList, hkeys]
  | start seen => exact hfits
  | store seen outputs => cases hstore
  | await seen => cases hown
  | leave result => cases hown

theorem Settled.proceed {work : Work} (h : s.Settled id fp encoded last) (hs : s.Guarded)
    (hfp : fp.isBuiltIn = true) (hencode : fp.encode = .ok encoded)
    (call : s.calls[i]? = some flight) (hphase : flight.phase = .holding lock work)
    (hown : work.isOwn = true) (halike : Alike id fp (s.proceed i flight lock work).marks) :
    (s.proceed i flight lock work).Settled id fp encoded last := by
  have hsuccesses : successes id (s.proceed i flight lock work).marks =
      successes id s.marks := by
    show List.filterMap _ ((s.piece flight work).1.marks flight.builder.id ++ s.marks) = _
    rw [List.filterMap_append]
    cases (s.piece flight work).1 <;> rfl
  by_cases hid : flight.builder.id = id
  · subst hid
    cases hstore : work.isStore with
    | false =>
      have hdrifts : s.now.world.Drifts (s.piece flight work).2.world :=
        Work.drifts_next hown fun seen outputs e => by subst e; cases hstore
      refine h.move call rfl hsuccesses ?_ hdrifts.holds fun _ => ⟨?_, ?_⟩
      · exact congrArg (fun c : MemoryCache => c.entries.get? flight.builder.id) hdrifts.memory
      · intro lock' work' hphase'
        cases hphase.symm.trans hphase'
        exact hstore
      · have hfits := h.fits_piece hs hfp hencode call hphase hown hstore halike
        exact hfits.congr (fun hne => hdrifts.memory ▸ hne) hdrifts.holds
    | true =>
      cases work with
      | store seen outputs =>
        have hfits := h.calls i flight call rfl
        rw [hphase] at hfits
        obtain ⟨rfl, -, hpresent⟩ := hfits
        obtain ⟨files, hworld, hkeys, -⟩ :=
          @MemoryCache.keep_world ρ flight.builder.id seen s.now encoded outputs hencode hpresent
        have hproceed : (s.proceed i flight lock (.store seen outputs)).now.world =
          { s.now.world with memory :=
            ⟨s.now.world.memory.entries.insert flight.builder.id ⟨encoded, files⟩⟩ } := hworld
        have hentry : (s.proceed i flight lock (.store seen outputs)).entryOf flight.builder.id =
            some ⟨encoded, files⟩ := by
          unfold entryOf
          rw [hproceed]
          exact SortedMap.get?_insert_self _ _ _
        refine h.kept call hphase rfl rfl ?_ hentry rfl hkeys
        rw [hproceed]
        exact fun _ h => h
      | _ => cases hstore
  · have houtside := Work.outside_next (t := s.now) (b := flight.builder) hown
    refine h.move call rfl hsuccesses ?_ houtside.holds fun e => (hid e).elim
    exact houtside.entries id fun e => hid e.symm

theorem Settled.step (h : s.Settled id fp encoded last) (hs : s.Guarded)
    (hfp : fp.isBuiltIn = true) (hencode : fp.encode = .ok encoded) (hstep : Step s s')
    (halike : Alike id fp s'.marks) : ∃ last, s'.Settled id fp encoded last := by
  cases hstep with
  | ask call phase =>
    exact ⟨last, h.move call rfl rfl rfl (fun _ h => h) fun _ =>
      ⟨fun _ _ => by rw [phase]; nofun, trivial⟩⟩
  | take call phase free =>
    exact ⟨last, h.move call rfl rfl rfl (fun _ h => h) fun _ =>
      ⟨fun _ _ => by rw [phase]; nofun, trivial⟩⟩
  | proceed call phase own => exact ⟨last, h.proceed hs hfp hencode call phase own halike⟩
  | @finish i flight lock seen call phase result =>
    by_cases hid : flight.builder.id = id
    · subst hid
      cases result with
      | ok outputs =>
        exact ⟨some outputs, h.succeeded hs call phase rfl rfl rfl
          (halike.present outputs _ List.mem_cons_self)⟩
      | error e =>
        refine ⟨last, h.move call rfl rfl rfl (fun _ h => h) fun _ => ⟨?_, trivial⟩⟩
        intro lock' work' hphase
        cases phase.symm.trans hphase
        rfl
    · refine ⟨last, h.move call rfl ?_ rfl (fun _ h => h) fun e => (hid e).elim⟩
      refine List.filterMap_cons_none ?_
      cases result with
      | ok outputs => exact if_neg hid
      | error e => rfl
  | @panic i flight lock work call phase may =>
    refine ⟨last, h.move call rfl ?_ rfl (fun _ h => h) fun hid => ⟨?_, trivial⟩⟩
    · cases work <;> rfl
    · intro lock' work' hphase
      cases phase.symm.trans hphase
      cases work with
      | store seen outputs =>
        have hfits := h.calls i flight call hid
        rw [phase] at hfits
        obtain ⟨rfl, -⟩ := hfits
        rw [Work.mayPanic, hfp] at may
        cases may
      | _ => rfl
  | @release i flight lock result call phase =>
    refine ⟨last, h.move call rfl rfl rfl (fun _ h => h) fun hid => ⟨?_, ?_⟩⟩
    · intro lock' work' hphase
      cases phase.symm.trans hphase
      rfl
    · have hfits := h.calls i flight call hid
      rw [phase] at hfits
      cases result <;> exact hfits
  | drift t drifts =>
    have hentry : t.world.memory.entries.get? id = s.entryOf id := by
      rw [drifts.memory]
      rfl
    refine ⟨last, h.history, fun entry hget => h.entry entry (hentry ▸ hget), ?_, ?_⟩
    · intro hlast hnone
      exact h.stored hlast (hentry ▸ hnone)
    · intro j g hg hid
      exact (h.calls j g hg hid).congr (fun hne => hentry ▸ hne) drifts.holds

/-! ## Every state that can be reached -/

theorem Settled.start (builders : List (Builder (Site ρ))) {t : Traced (Site ρ)}
    (h : t.world.memory = {}) (id : BuilderId) (fp : Fingerprint) (encoded : Bytes) :
    (start builders t).Settled id fp encoded none := by
  refine ⟨rfl, ?_, nofun, ?_⟩
  · intro entry hget
    unfold entryOf Flights.start at hget
    rw [h] at hget
    cases hget
  · intro i f hf _
    rw [phase_start hf]
    trivial

theorem Step.marks (hstep : Step s s') : ∃ more, s'.marks = more ++ s.marks := by
  cases hstep with
  | ask call phase => exact ⟨[], rfl⟩
  | take call phase free => exact ⟨[], rfl⟩
  | proceed call phase own => exact ⟨_, rfl⟩
  | finish call phase result => exact ⟨[_], rfl⟩
  | panic call phase may => exact ⟨_, rfl⟩
  | release call phase => exact ⟨[], rfl⟩
  | drift t drifts => exact ⟨[], rfl⟩

section Reached

variable {builders : List (Builder (Site ρ))} {t : Traced (Site ρ)}

theorem settled_of_steps (hempty : t.world.memory = {}) (hfp : fp.isBuiltIn = true)
    (hencode : fp.encode = .ok encoded) (hsteps : Steps (start builders t) s)
    (halike : Alike id fp s.marks) : ∃ last, s.Settled id fp encoded last := by
  induction hsteps with
  | refl => exact ⟨none, .start builders hempty id fp encoded⟩
  | tail hsteps hstep ih =>
    obtain ⟨more, hmarks⟩ := hstep.marks
    obtain ⟨last, hsettled⟩ := ih (Alike.earlier (hmarks ▸ halike))
    exact hsettled.step ((Guarded.start builders t).steps hsteps) hfp hencode hstep halike

/-- Whatever happens in whatever order: of the calls of an identity at most one has the lock, and no
run of the builder inside is started before the one before it has ended. If the calls of an identity
see fingerprints that are equal to one of built-in kinds, which can be encoded, and if runs that
succeed leave all outputs in the target, at most one run succeeds, and a call that returns outputs
returns those of this run. Calls of other identities may do what they like.

What a fingerprint without an encoding comes to is in `Flights.gets_unwritable`. -/
theorem single_flight (hempty : t.world.memory = {}) (hsteps : Steps (start builders t) s) :
    (∀ (i j : Nat) (f g : Flight ρ) (lock lock' : Nat) (work work' : Work),
      s.calls[i]? = some f → s.calls[j]? = some g → f.builder.id = g.builder.id →
      f.phase = .holding lock work → g.phase = .holding lock' work' → i = j) ∧
    Apart s.marks ∧
    ∀ id fp, fp.isBuiltIn = true → fp.body.length < Nat.pow 2 32 → Alike id fp s.marks →
      (successes id s.marks).length ≤ 1 ∧
      ∀ (i : Nat) (f : Flight ρ) (outputs : Outputs), s.calls[i]? = some f → f.builder.id = id →
        f.phase = .returned (.ok outputs) → successes id s.marks = [outputs] := by
  refine ⟨?_, (sequential_of_steps hsteps).apart, ?_⟩
  · intro i j f g lock lock' work work' hf hg hid hphase hphase'
    exact ((Guarded.start builders t).steps hsteps).eq_of_id hf hg hid hphase hphase'
  · intro id fp hfp hbody halike
    obtain ⟨encoded, hencode⟩ := (Fingerprint.decode_encode_limits fp hfp).1.2 hbody
    obtain ⟨last, hsettled⟩ := settled_of_steps hempty hfp hencode hsteps halike
    refine ⟨?_, ?_⟩
    · rw [hsettled.history]
      exact Option.length_toList_le
    · intro i f outputs hf hid hphase
      have hfits := hsettled.calls i f hf hid
      rw [hphase] at hfits
      have hlast : last = some outputs := hfits
      rw [hsettled.history, hlast]
      rfl

end Reached

end Flights

/-! ## Two calls of one builder -/

namespace Pair
open Flights

def outputs : Outputs := .ofList [Stamp.path]

/-- Writes an empty file. -/
def builder : Builder (Site Unit) where
  id := Stamp.builderId
  serial := 0
  inputs := .nothing
  run := Action.change fun s => (.ok outputs, { s with target := s.target.write Stamp.path [] })

def site : Site Unit := ⟨⟨"target", ∅⟩, {}, {}, ()⟩

/-- The site with the file. -/
def written : Site Unit := { site with target := site.target.write Stamp.path [] }

/-- Two calls that have not begun. -/
def begun : Flights Unit := start [builder, builder] ⟨site, []⟩

/-- A call that has the lock. -/
def busy (work : Work) : Flight Unit := ⟨builder, .holding 0 work⟩

/-- The second call asks for the lock while the first one has it. The builder inside writes its file
before it returns. -/
theorem steps_begun : ∃ s, Steps begun s ∧
    s.calls = [⟨builder, .returned (.ok outputs)⟩, ⟨builder, .returned (.ok outputs)⟩] ∧
    s.marks = [.surveyed builder.id .empty, .ended builder.id (.ok outputs) written.target,
      .started builder.id, .surveyed builder.id .empty] := by
  have h : Steps begun begun := .refl
  have h := h.tail (@Step.ask _ _ 0 ⟨builder, .called⟩ rfl rfl)
  have h := h.tail (@Step.take _ _ 0 ⟨builder, .waiting 0⟩ 0 rfl rfl (by decide))
  have h := h.tail (@Step.proceed _ _ 0 (busy .survey) 0 _ rfl rfl rfl)
  have h := h.tail (@Step.ask _ _ 1 ⟨builder, .called⟩ rfl rfl)
  have h := h.tail (@Step.proceed _ _ 0 (busy (.lookUp .empty)) 0 _ rfl rfl rfl)
  have h := h.tail (@Step.proceed _ _ 0 (busy (.start .empty)) 0 _ rfl rfl rfl)
  have h := h.tail (@Step.drift _ _ ⟨written, []⟩ ⟨rfl, nofun⟩)
  have h := h.tail (@Step.finish _ _ 0 (busy (.await .empty)) 0 _ rfl rfl (.ok outputs))
  have h := h.tail (@Step.proceed _ _ 0 (busy (.store .empty outputs)) 0 _ rfl rfl rfl)
  have h := h.tail (@Step.release _ _ 0 (busy (.leave (.ok outputs))) 0 _ rfl rfl)
  have h := h.tail (@Step.take _ _ 1 ⟨builder, .waiting 0⟩ 0 rfl rfl (by decide))
  have h := h.tail (@Step.proceed _ _ 1 (busy .survey) 0 _ rfl rfl rfl)
  have h := h.tail (@Step.proceed _ _ 1 (busy (.lookUp .empty)) 0 _ rfl rfl rfl)
  have h := h.tail (@Step.proceed _ _ 1 (busy (.restore .empty)) 0 _ rfl rfl rfl)
  have h := h.tail (@Step.release _ _ 1 (busy (.leave (.ok outputs))) 0 _ rfl rfl)
  exact ⟨_, h, rfl, rfl⟩

/-- Both calls return the file, and the builder inside has run once. -/
theorem single_flight_pair : ∃ s, Steps begun s ∧ Apart s.marks ∧
    Alike builder.id .empty s.marks ∧ (successes builder.id s.marks).length ≤ 1 ∧
    ∀ f ∈ s.calls, f.phase = .returned (.ok outputs) ∧
      successes builder.id s.marks = [outputs] := by
  obtain ⟨s, hsteps, hcalls, hmarks⟩ := steps_begun
  have halike : Alike builder.id .empty s.marks := by
    rw [hmarks]
    refine ⟨?_, ?_⟩
    · intro fp hmem
      simp only [List.mem_cons, List.not_mem_nil, or_false, reduceCtorEq, false_or,
        Mark.surveyed.injEq, true_and, or_self] at hmem
      rw [hmem]
      rfl
    · intro outputs' target hmem p hp
      simp only [List.mem_cons, List.not_mem_nil, or_false, reduceCtorEq, false_or,
        Mark.ended.injEq, true_and, Except.ok.injEq] at hmem
      obtain ⟨rfl, rfl⟩ := hmem
      rw [outputs, SortedSet.mem_ofList, List.mem_singleton] at hp
      rw [hp]
      rfl
  obtain ⟨-, hapart, hsingle⟩ := single_flight rfl hsteps
  obtain ⟨hfew, hsame⟩ := hsingle builder.id .empty rfl (by decide) halike
  refine ⟨s, hsteps, hapart, halike, hfew, ?_⟩
  have hboth (i : Nat) (hi : i < 2) :
      s.calls[i]? = some ⟨builder, .returned (.ok outputs)⟩ := by
    rw [hcalls]
    match i, hi with
    | 0, _ => rfl
    | 1, _ => rfl
  intro f hf
  obtain ⟨i, hlt, rfl⟩ := List.mem_iff_getElem.1 hf
  rw [hcalls] at hlt
  have hcall := hboth i hlt
  have hget := (List.getElem?_eq_some_iff.1 hcall).2
  rw [hget]
  exact ⟨rfl, hsame i _ outputs hcall rfl rfl⟩

end Pair

end Rebuild
