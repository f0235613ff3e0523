import Rebuild.Proofs.Concurrent.SingleFlight

/-!
# Calls under a fingerprint that cannot be encoded

The length of a payload is written in four bytes, so a fingerprint with a payload of
4 GiB or more has no encoding. The cache in memory takes it for a miss and keeps nothing
under it: however often the builder inside has succeeded, the next call runs it again.
That is why `Flights.single_flight` asks for fingerprints that can be encoded.

* `Flights.Gets`: a call gets to a phase, and the cache and the target lose nothing.
* `Flights.gets_unwritable`: under such a fingerprint, a call runs the builder inside.
* `Pair.vast_run_twice`: two calls that see one fingerprint, and two runs that succeed.
-/
namespace Rebuild

/-! ## What the cache makes of it -/

section Pieces

variable {ρ : Type} {t : Traced (Site ρ)} {b : Builder (Site ρ)} {fp : Fingerprint}
  {e : ProtocolError}

theorem Work.next_lookUp_unwritable (hencode : fp.encode = .error e) :
    ((lookUp fp).next b (MemoryCache.cache Site.memoryPart) Site.directory t).1 = start fp := by
  obtain ⟨-, hfound⟩ := Workshop.contains_memory b.id fp t
  rw [next, Action.bind_apply]
  generalize (MemoryCache.cache Site.memoryPart).contains b.id fp t = answer at hfound ⊢
  obtain ⟨found, t₁⟩ := answer
  cases found with
  | false => rfl
  | true =>
    have hcontains := hfound rfl
    unfold MemoryCache.contains at hcontains
    rw [hencode] at hcontains
    cases hcontains

theorem drifts_keep_unwritable (hencode : fp.encode = .error e) (id : BuilderId)
    (outputs : Outputs) : t.world.Drifts
      ((MemoryCache.cache Site.memoryPart).keep id fp outputs Site.directory t).2.world := by
  have hget : (get : Action (Site ρ) _) t = (t, t) := rfl
  have hpart : Site.memoryPart.get t.world = t.world.memory := rfl
  have hstore : t.world.memory.store id fp outputs (Site.directory.read · t.world) =
      .error (.protocol id e) := by
    unfold MemoryCache.store
    rw [hencode]
    rfl
  rw [Cache.keep_world]
  unfold MemoryCache.cache
  simp only [Action.bind_apply, hget, hpart, hstore]
  exact .of_eq rfl

theorem Site.Drifts.trans {s s' s'' : Site ρ} (h : s.Drifts s') (h' : s'.Drifts s'') :
    s.Drifts s'' :=
  ⟨h'.memory.trans h.memory, fun p hp => h'.holds p (h.holds p hp)⟩

end Pieces

/-! ## A whole call -/

namespace Flights

variable {ρ : Type} {s s' s'' : Flights ρ} {i lock : Nat} {b : Builder (Site ρ)}
  {flight : Flight ρ} {phase phase' : Phase} {work work' : Work} {marks marks' : List Mark}
  {taken taken' : List Nat} {fp : Fingerprint} {e : ProtocolError} {outputs : Outputs}

/-- A call gets to a phase. Until then the cache does not change, and nothing is deleted from the
target; the marks and the locks are those after it. -/
structure Gets (i : Nat) (b : Builder (Site ρ)) (phase : Phase) (marks : List Mark)
    (taken : List Nat) (s s' : Flights ρ) : Prop where
  steps : Steps s s'
  calls : s'.calls = s.calls.set i ⟨b, phase⟩
  marks : s'.marks = marks
  taken : s'.taken = taken
  drifts : s.now.world.Drifts s'.now.world

theorem Gets.call (h : Gets i b phase marks taken s s') (call : s.calls[i]? = some flight) :
    s'.calls[i]? = some ⟨b, phase⟩ := by
  obtain ⟨hlt, -⟩ := List.getElem?_eq_some_iff.1 call
  rw [h.calls, List.getElem?_set_self hlt]

theorem Gets.trans (h : Gets i b phase marks taken s s')
    (h' : Gets i b phase' marks' taken' s' s'') : Gets i b phase' marks' taken' s s'' :=
  ⟨h.steps.trans h'.steps, by rw [h'.calls, h.calls, List.set_set], h'.marks, h'.taken,
    h.drifts.trans h'.drifts⟩

theorem Gets.proceed (h : Gets i b (.holding lock work) marks taken s s')
    (call : s.calls[i]? = some flight) (own : work.isOwn = true)
    (hnext : ∀ t, (work.next b (MemoryCache.cache Site.memoryPart) Site.directory t).1 = work')
    (hdrifts : ∀ t : Traced (Site ρ), t.world.Drifts
      (work.next b (MemoryCache.cache Site.memoryPart) Site.directory t).2.world) :
    ∃ s'', Gets i b (.holding lock work') (work'.marks b.id ++ marks) taken s s'' := by
  cases hnext s'.now
  exact ⟨_, h.trans ⟨.single (.proceed (h.call call) rfl own), rfl, congrArg _ h.marks, h.taken,
    hdrifts _⟩⟩

/-- While nobody has a lock, a call that begins gets the one that it asks for. -/
theorem gets_lock (call : s.calls[i]? = some ⟨b, .called⟩) (free : s.taken = []) :
    ∃ lock s', Gets i b (.holding lock .survey) s.marks [lock] s s' := by
  have hasked : Gets i b (.waiting (s.table.get b.id).1) s.marks [] s (s.ask i ⟨b, .called⟩) :=
    ⟨.single (.ask call rfl), rfl, rfl, free, .of_eq rfl⟩
  generalize (s.table.get b.id).1 = lock at hasked
  generalize s.ask i ⟨b, .called⟩ = s₁ at hasked
  have hfree : lock ∉ s₁.taken := by
    rw [hasked.taken]
    exact List.not_mem_nil
  exact ⟨lock, s₁.take i ⟨b, .waiting lock⟩ lock, hasked.trans
    ⟨.single (.take (hasked.call call) rfl hfree), rfl, hasked.marks,
      congrArg (lock :: ·) hasked.taken, .of_eq rfl⟩⟩

/-- Whatever was stored before, a call under a fingerprint that cannot be encoded runs the builder
inside, and stores nothing itself. -/
theorem gets_unwritable (call : s.calls[i]? = some ⟨b, .called⟩) (free : s.taken = [])
    (hsees : ∀ world, b.inputs.fingerprint world = .ok fp) (hencode : fp.encode = .error e)
    (hpresent : ∀ p ∈ outputs, s.now.world.target.holds p = true) :
    ∃ s' target, (∀ p ∈ outputs, target.holds p = true) ∧
      Gets i b (.returned (.ok outputs)) (.ended b.id (.ok outputs) target :: .started b.id ::
        .surveyed b.id fp :: s.marks) [] s s' := by
  obtain ⟨lock, _, htaken⟩ := gets_lock call free
  have hsurvey (t : Traced (Site ρ)) : (Work.survey.next b (MemoryCache.cache Site.memoryPart)
      Site.directory t).1 = .lookUp fp := by rw [Work.next_survey, hsees]
  obtain ⟨_, hsurveyed⟩ := htaken.proceed call rfl hsurvey fun _ => Work.drifts_next rfl nofun
  -- there is no encoding to compare with that of the entry, so this is a miss
  obtain ⟨_, hmissed⟩ := hsurveyed.proceed call rfl
    (fun _ => Work.next_lookUp_unwritable hencode) fun _ => Work.drifts_next rfl nofun
  obtain ⟨s₂, hstarted⟩ := hmissed.proceed call rfl (fun _ => rfl)
    fun _ => Work.drifts_next rfl nofun
  have hended : Gets i b (.holding lock (.store fp outputs))
      (.ended b.id (.ok outputs) s₂.now.world.target :: .started b.id :: .surveyed b.id fp ::
        s.marks) [lock] s
      (s₂.finish i ⟨b, .holding lock (.await fp)⟩ lock fp (.ok outputs)) :=
    hstarted.trans ⟨.single (.finish (hstarted.call call) rfl (.ok outputs)), rfl,
      congrArg (List.cons _) hstarted.marks, hstarted.taken, .of_eq rfl⟩
  have hstore (t : Traced (Site ρ)) : ((Work.store fp outputs).next b
      (MemoryCache.cache Site.memoryPart) Site.directory t).1 = .leave (.ok outputs) := rfl
  obtain ⟨_, hstored⟩ := hended.proceed call rfl hstore fun _ => drifts_keep_unwritable hencode _ _
  refine ⟨_, s₂.now.world.target, fun p hp => hstarted.drifts.holds p (hpresent p hp),
    hstored.trans ⟨.single (.release (hstored.call call) rfl), rfl, hstored.marks, ?_, .of_eq rfl⟩⟩
  show List.filter _ _ = _
  rw [hstored.taken]
  exact List.filter_eq_nil_iff.2 (by simp)

end Flights

theorem Alike.run {id : BuilderId} {fp : Fingerprint} {marks : List Mark} {outputs : Outputs}
    {target : MemoryDirectory} (h : Alike id fp marks) (hagrees : fp.agrees fp = true)
    (hpresent : ∀ p ∈ outputs, target.holds p = true) :
    Alike id fp (.ended id (.ok outputs) target :: .started id :: .surveyed id fp :: marks) := by
  refine ⟨fun fp' hmem => ?_, fun outputs' target' hmem => ?_⟩
  · simp only [List.mem_cons, reduceCtorEq, false_or, Mark.surveyed.injEq, true_and] at hmem
    rcases hmem with rfl | hmem
    · exact hagrees
    · exact h.seen fp' hmem
  · simp only [List.mem_cons, reduceCtorEq, false_or, Mark.ended.injEq, true_and,
      Except.ok.injEq] at hmem
    rcases hmem with ⟨rfl, rfl⟩ | hmem
    · exact hpresent
    · exact h.present outputs' target' hmem

/-! ## A fingerprint of 4 GiB -/

namespace Pair
open Flights

/-- A name that has as many bytes as no payload may have. -/
def vastName : String := String.ofList (List.replicate (Nat.pow 2 32) 'x')

/-- The fingerprint of a block of parameters with this name. -/
def vast : Fingerprint := .parameters vastName (ContentHash.ofBytes (Bytes.ofText "null"))

/-- Writes the file of `builder`, and depends on the block of parameters. -/
def vastBuilder : Builder (Site Unit) :=
  { builder with inputs := .parameters vastName fun _ => .unit }

theorem fingerprint_vastBuilder (s : Site Unit) :
    vastBuilder.inputs.fingerprint s = .ok vast := by
  have htext : Parameter.unit.canonicalText = .ok "null" := by rfl
  show (Fingerprint.ofParameters vastName .unit).mapError (.parameters vastName) = _
  unfold Fingerprint.ofParameters
  rw [htext]
  rfl

theorem length_ofText_replicate (n : Nat) :
    (Bytes.ofText (String.ofList (List.replicate n 'x'))).length = n := by
  rw [Bytes.ofText_eq, String.toList_ofList, List.length_flatMap, List.map_replicate,
    List.sum_replicate_nat]
  exact Nat.mul_one n

theorem encode_vast : ∃ e, vast.encode = .error e := by
  rw [exists_error_iff, (Fingerprint.decode_encode_limits vast rfl).1, Nat.not_lt]
  have hname : (Bytes.ofText vastName).length = Nat.pow 2 32 := length_ofText_replicate _
  unfold vast Fingerprint.body Payload.text
  rw [List.length_append, Payload.length_byteString, hname]
  omega

/-- Over an empty cache two calls of one identity see one fingerprint of a built-in kind, their runs
leave the file that they return, and both runs succeed. -/
theorem vast_run_twice : written.memory = {} ∧ vast.isBuiltIn = true ∧ ∃ s,
    Steps (start [vastBuilder, vastBuilder] ⟨written, []⟩) s ∧ Alike builder.id vast s.marks ∧
      successes builder.id s.marks = [outputs, outputs] := by
  obtain ⟨e, hencode⟩ := encode_vast
  have hpresent : ∀ p ∈ outputs, written.target.holds p = true := by
    intro p hp
    rw [outputs, SortedSet.mem_ofList, List.mem_singleton] at hp
    rw [hp]
    rfl
  obtain ⟨s₁, target₁, hholds₁, hfirst⟩ := @gets_unwritable _
    (start [vastBuilder, vastBuilder] ⟨written, []⟩) 0 vastBuilder vast e outputs rfl rfl
    fingerprint_vastBuilder hencode hpresent
  obtain ⟨s₂, target₂, hholds₂, hsecond⟩ := @gets_unwritable _ s₁ 1 vastBuilder vast e outputs
    (by rw [hfirst.calls]; rfl) hfirst.taken fingerprint_vastBuilder hencode
    fun p hp => hfirst.drifts.holds p (hpresent p hp)
  have hagrees := Fingerprint.agrees_self vast rfl
  have halike : Alike builder.id vast ([] : List Mark) :=
    ⟨fun _ hmem => absurd hmem List.not_mem_nil, fun _ _ hmem => absurd hmem List.not_mem_nil⟩
  refine ⟨rfl, rfl, s₂, hfirst.steps.trans hsecond.steps, ?_, ?_⟩
  · rw [hsecond.marks, hfirst.marks]
    exact (halike.run hagrees hholds₁).run hagrees hholds₂
  · rw [hsecond.marks, hfirst.marks]
    rfl

end Pair

end Rebuild
