import Rebuild.Proofs.Cache.Archive

/-!
# Bytes that decide whether fingerprints agree

Fingerprints of built-in kinds have one written form each: two of them that can be
written agree exactly if they are written as the same bytes. A cache in memory keeps
the bytes only, and yet it answers as if it had kept the fingerprint: it never takes
one snapshot for another, and never misses one that agrees.

* `Fingerprint.agrees_equivalence`: agreement is an equivalence.
* `storedUnder?`: the fingerprint of an entry, as past requests and answers tell.
* `MemoryCache.Asked.keeps`: after any requests, an entry has the bytes of that fingerprint.
* `canonical_forms`: agreement, the bytes, and what a cache in memory answers.
-/
namespace Rebuild

namespace Fingerprint

variable {a b c : Fingerprint} {x y : Bytes}

theorem agrees_eq_false_of_encode {e : ProtocolError} (ha : a.isBuiltIn = true)
    (hx : a.encode = .ok x) (hy : b.encode = .error e) : a.agrees b = false := by
  refine Bool.eq_false_iff.2 fun h => ?_
  rw [(agrees_iff ha).1 h, hy] at hx
  cases hx

theorem agrees_equivalence :
    Equivalence fun a b : { fp : Fingerprint // fp.isBuiltIn = true } => a.1.agrees b.1 = true where
  refl a := agrees_self a.1 a.2
  symm {a b} h := (agrees_iff b.2).2 ((agrees_iff a.2).1 h).symm
  trans {a b _} h h' := (agrees_iff a.2).2 (((agrees_iff a.2).1 h).trans ((agrees_iff b.2).1 h'))

end Fingerprint

/-! ## What was stored -/

variable {ρ : Type}

/-- The fingerprint under which the entry of a builder was stored last, unless it was removed since.
The latest request comes first. -/
def storedUnder? (id : BuilderId) : List (Request ρ × Answer) → Option Fingerprint
  | [] => none
  | (.store other fp _ _, .stored (.ok ())) :: past =>
    if other = id then some fp else storedUnder? id past
  | (.remove other, _) :: past => if other = id then none else storedUnder? id past
  | _ :: past => storedUnder? id past

namespace MemoryCache

/-- The worlds to which requests lead from an empty cache, with the requests and their answers. -/
inductive Asked : List (Request ρ × Answer) → Traced (Site ρ) → Prop
  | start {t : Traced (Site ρ)} (h : t.world.memory = {}) : Asked [] t
  | step {past : List (Request ρ × Answer)} {t : Traced (Site ρ)} (request : Request ρ)
      (h : Asked past t) : Asked ((request, (respond request t).1) :: past) (respond request t).2

/-- Every entry has the bytes of the fingerprint under which it was stored. -/
def KeepsBytes (past : List (Request ρ × Answer)) (c : MemoryCache) : Prop :=
  ∀ id, Option.Rel (fun entry fp => fp.encode = .ok entry.fingerprint) (c.entries.get? id)
    (storedUnder? id past)

variable {past : List (Request ρ × Answer)} {t : Traced (Site ρ)} {id : BuilderId}
  {fp : Fingerprint}

/-- How storing ends: nothing happens, or the entry is replaced by one under the fingerprint. -/
theorem respond_store (id : BuilderId) (fp : Fingerprint) (outputs : Outputs)
    (source : Directory ρ) (t : Traced (Site ρ)) :
    (∃ e, (respond (.store id fp outputs source) t).1 = .stored (.error e) ∧
      (respond (.store id fp outputs source) t).2 = t) ∨
    (∃ entry, fp.encode = .ok entry.fingerprint ∧
      (respond (.store id fp outputs source) t).1 = .stored (.ok ()) ∧
      (respond (.store id fp outputs source) t).2.world.memory =
        ⟨t.world.memory.entries.insert id entry⟩) := by
  have hget : (get : Action (Site ρ) _) t = (t, t) := rfl
  have hpart : Site.memoryPart.get t.world = t.world.memory := rfl
  unfold respond cache
  simp only [Action.bind_apply, hget, hpart]
  cases hstore : t.world.memory.store id fp outputs ((Site.elsewhere source).read · t.world) with
  | error e => exact .inl ⟨e, rfl, rfl⟩
  | ok c =>
    obtain ⟨encoded, files, hencode, -, rfl⟩ := store_eq_ok hstore
    exact .inr ⟨⟨encoded, .ofList files⟩, hencode, rfl, rfl⟩

theorem memory_respond (request : Request ρ) (hstore : ∀ id fp outputs source,
    request ≠ .store id fp outputs source) (hremove : ∀ id, request ≠ .remove id) :
    (respond request t).2.world.memory = t.world.memory := by
  cases request with
  | store id fp outputs source => exact absurd rfl (hstore id fp outputs source)
  | remove id => exact absurd rfl (hremove id)
  | contains id fp =>
    obtain ⟨events, hlog⟩ := (Workshop.contains_memory id fp t).1
    unfold respond
    dsimp only
    rw [hlog]
  | restore id target =>
    have hpart : Site.memoryPart.get t.world = t.world.memory := rfl
    unfold respond cache
    simp only [Action.bind_apply, Action.ask_apply, hpart]
    cases t.world.memory.files id with
    | error e => rfl
    | ok files =>
      simp only [Action.bind_apply, Action.change_apply, Site.writeAll_elsewhere, Part.change]
      generalize target.writeAll files.entries (Site.restPart.get t.world) = written
      obtain ⟨result, r⟩ := written
      cases result <;> rfl
  | elsewhere change => rfl
  | reopen process started => rfl

theorem KeepsBytes.of_eq {past' : List (Request ρ × Answer)} {c c' : MemoryCache}
    (h : KeepsBytes past c) (hc : c' = c)
    (hpast : ∀ id, storedUnder? id past' = storedUnder? id past) :
    KeepsBytes past' c' := fun id => by
  rw [hc, hpast]
  exact h id

theorem KeepsBytes.step (h : KeepsBytes past t.world.memory) (request : Request ρ) :
    KeepsBytes ((request, (respond request t).1) :: past) (respond request t).2.world.memory := by
  cases request with
  | store id fp outputs source =>
    obtain ⟨e, hanswer, hworld⟩ | ⟨entry, hencode, hanswer, hmemory⟩ :=
      respond_store id fp outputs source t
    · rw [hanswer, hworld]
      exact h.of_eq rfl fun _ => rfl
    · rw [hanswer, hmemory]
      intro other
      rw [SortedMap.get?_insert]
      by_cases hother : id = other
      · subst hother
        rw [storedUnder?, if_pos rfl, if_pos Std.ReflCmp.compare_self]
        exact .some hencode
      · rw [storedUnder?, if_neg hother,
          if_neg fun heq => hother (Std.LawfulEqOrd.eq_of_compare heq).symm]
        exact h other
  | remove id =>
    intro other
    show Option.Rel _ ((t.world.memory.entries.erase id).get? other)
      (if id = other then none else storedUnder? other past)
    rw [SortedMap.get?_erase]
    by_cases hother : id = other
    · subst hother
      rw [if_pos rfl, if_pos Std.ReflCmp.compare_self]
      exact .none
    · rw [if_neg hother, if_neg fun heq => hother (Std.LawfulEqOrd.eq_of_compare heq).symm]
      exact h other
  | _ => exact h.of_eq (memory_respond _ nofun nofun) fun _ => rfl

theorem Asked.keeps (h : Asked past t) : KeepsBytes past t.world.memory := by
  induction h with
  | start h =>
    rw [h]
    exact fun _ => .none
  | step request _ ih => exact ih.step request

/-- Comparing bytes comes to the same as asking whether the fingerprints agree. -/
theorem KeepsBytes.contains (h : KeepsBytes past t.world.memory) (hfp : fp.isBuiltIn = true)
    (hstored : ∀ stored, storedUnder? id past = some stored → stored.isBuiltIn = true) :
    (respond (.contains id fp) t).1 = .found ((storedUnder? id past).any (·.agrees fp)) := by
  have hentry := h id
  unfold respond
  dsimp only
  refine congrArg Answer.found ?_
  cases hencode : fp.encode with
  | error e =>
    have hcontains : t.world.memory.contains id fp = .error e := by
      unfold MemoryCache.contains
      rw [hencode]
      rfl
    have hpart : Site.memoryPart.get t.world = t.world.memory := rfl
    unfold cache
    simp only [Action.bind_apply, Action.ask_apply, hpart, hcontains]
    generalize t.world.memory.entries.get? id = entry? at hentry
    generalize storedUnder? id past = stored? at hentry hstored
    cases hentry with
    | none => rfl
    | some hbytes =>
      exact (Fingerprint.agrees_eq_false_of_encode (hstored _ rfl) hbytes hencode).symm
  | ok encoded =>
    obtain ⟨found, hfound, hcontains⟩ := @contains_apply ρ id fp t ⟨encoded, hencode⟩
    rw [contains_of_encode hencode] at hfound
    rw [hcontains, ← Except.ok.inj hfound]
    generalize t.world.memory.entries.get? id = entry? at hentry
    generalize storedUnder? id past = stored? at hentry hstored
    cases hentry with
    | none => rfl
    | some hbytes =>
      rw [Option.any_some, Option.any_some, Bool.eq_iff_iff, beq_iff_eq]
      exact (Fingerprint.agrees_iff_encode_eq (hstored _ rfl) hfp hbytes hencode).symm

end MemoryCache

/-! ## Main result -/

open MemoryCache in
/-- Fingerprints of built-in kinds that can be written agree exactly if they are written as the same
bytes, so agreement is an equivalence, across all kinds. A cache in memory, which compares bytes,
answers after any requests as the fingerprint under which the entry was stored last would; this
holds for fingerprints that cannot be written, too. -/
theorem canonical_forms :
    (∀ (a b : Fingerprint) (x y : Bytes), a.isBuiltIn = true → b.isBuiltIn = true →
      a.encode = .ok x → b.encode = .ok y → (a.agrees b = true ↔ x = y)) ∧
    (Equivalence fun a b : { fp : Fingerprint // fp.isBuiltIn = true } => a.1.agrees b.1 = true) ∧
    ∀ (past : List (Request ρ × Answer)) (t : Traced (Site ρ)) (id : BuilderId) (fp : Fingerprint),
      Asked past t → fp.isBuiltIn = true →
      (∀ stored, storedUnder? id past = some stored → stored.isBuiltIn = true) →
      (respond (.contains id fp) t).1 = .found ((storedUnder? id past).any (·.agrees fp)) :=
  ⟨fun _ _ _ _ ha hb hx hy => Fingerprint.agrees_iff_encode_eq ha hb hx hy,
    Fingerprint.agrees_equivalence,
    fun _ _ _ _ hasked hfp hstored => hasked.keeps.contains hfp hstored⟩

/-- A named block beside no inputs, in one snapshot. -/
def Fingerprint.beside (name digest : String) : Fingerprint :=
  .combined [.parameters name ⟨digest⟩, .empty]

/-- Texts that are the same when they are put together are told apart, and a cache that took the
snapshot of one does not match the other. -/
theorem canonical_forms_boundary :
    let a := Fingerprint.beside "ab" "c"
    let b := Fingerprint.beside "a" "bc"
    let stored := MemoryCache.respond (.store Stamp.builderId a ∅ Stamp.source)
      ⟨Stamp.shelf Stamp.path, []⟩
    (a.agrees b = true ↔ a.wire = b.wire) ∧ a.agrees a = true ∧
      (MemoryCache.respond (.contains Stamp.builderId a) stored.2).1 = .found true ∧
      (MemoryCache.respond (.contains Stamp.builderId b) stored.2).1 = .found false := by
  intro a b stored
  have hasked : MemoryCache.Asked
      [(.store Stamp.builderId a ∅ Stamp.source, .stored (.ok ()))] stored.2 :=
    .step _ (.start rfl)
  obtain ⟨hbytes, hequivalence, hcontains⟩ := @canonical_forms MemoryDirectory
  have hstored (c : Fingerprint) (hc : c.isBuiltIn = true) :=
    hcontains _ _ Stamp.builderId c hasked hc (fun _ h => Option.some.inj h ▸ rfl)
  exact ⟨hbytes a b a.wire b.wire rfl rfl rfl rfl, hequivalence.refl ⟨a, rfl⟩, hstored a rfl,
    hstored b rfl⟩

end Rebuild
