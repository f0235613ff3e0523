import Rebuild.Cache.IdentityLocks
import Rebuild.Proofs.Cache.Answers
import Rebuild.Proofs.Incremental.Recall

/-!
# Faults of a cache

Whatever is wrong with a cache, a builder behind it fails only for reasons of its own: its inputs
cannot be read, or it is run and fails. And whatever is wrong with a builder, its cache is not
touched before a run has succeeded; a lock that was poisoned by a panic is taken like any other.

* `Cache.Provided`: caches in memory and on the disk, in any state.
* `Cache.Discreet`: caches that write to nothing but a directory unless they store.
* `Builder.Spared`, `Builder.Invoked`: whether the builder behind the cache is run.
* `Shared.call`: a call that takes the lock of its identity.
* `Shared.faults_contained`: faults on the one side do not reach the other.
-/
namespace Rebuild

variable {σ : Type}

/-! ## What a cache changes -/

/-- What attempts to write leave, also those that fail. -/
def Directory.put (dir : Directory σ) (writes : List (RelativePath × Bytes)) (s : σ) : σ :=
  writes.foldl (fun s write => (dir.write write.1 write.2 s).2) s

theorem Directory.put_cons (dir : Directory σ) (p : RelativePath) (content : Bytes)
    (writes : List (RelativePath × Bytes)) (s : σ) :
    dir.put ((p, content) :: writes) s = dir.put writes (dir.write p content s).2 := rfl

theorem Directory.writeAll_eq_put (dir : Directory σ) : ∀ (files : List (RelativePath × Bytes))
    (s : σ), ∃ writes, (dir.writeAll files s).2 = dir.put writes s
  | [], s => ⟨[], rfl⟩
  | (p, content) :: rest, s => by
    have hput (writes) := dir.put_cons p content writes s
    rw [writeAll]
    generalize dir.write p content s = written at hput
    obtain ⟨result, s'⟩ := written
    cases result with
    | error e => exact ⟨[(p, content)], (hput []).symm⟩
    | ok =>
      obtain ⟨writes, hrest⟩ := writeAll_eq_put dir rest s'
      exact ⟨(p, content) :: writes, hrest.trans (hput writes).symm⟩

/-- What no attempt to write breaks, none of several breaks. -/
theorem Directory.put_induction {dir : Directory σ} {Kept : σ → Prop}
    (h : ∀ p content s, Kept s → Kept (dir.write p content s).2) :
    ∀ {writes : List (RelativePath × Bytes)} {s : σ}, Kept s → Kept (dir.put writes s)
  | [], _, hs => hs
  | (p, content) :: rest, s, hs => by
    rw [put_cons]
    exact put_induction h (h p content s hs)

theorem DiskCache.copyOut_eq_put (part : Part σ Disk) (files : LocalDirectory) (id : BuilderId)
    (target : Directory σ) : ∀ (l : List RelativePath) (s : σ),
    ∃ writes, (copyOut part files id target l s).2 = target.put writes s
  | [], s => ⟨[], rfl⟩
  | p :: rest, s => by
    rw [copyOut]
    cases files.read p (part.get s) with
    | error e => exact ⟨[], rfl⟩
    | ok content =>
      have hput (writes) := target.put_cons p content writes s
      dsimp only
      generalize target.write p content s = written at hput
      obtain ⟨result, s'⟩ := written
      cases result with
      | error e => exact ⟨[(p, content)], (hput []).symm⟩
      | ok =>
        obtain ⟨writes, hrest⟩ := copyOut_eq_put part files id target rest s'
        exact ⟨(p, content) :: writes, hrest.trans (hput writes).symm⟩

namespace Cache

/-- A cache in memory, or one on the disk. -/
inductive Provided : Cache σ → Prop
  | memory (part : Part σ MemoryCache) : Provided (MemoryCache.cache part)
  | disk (part : Part σ Disk) (c : DiskCache) : Provided (DiskCache.cache part c)

/-- Looking up changes nothing, and restoring does nothing but write to the directory. -/
structure Discreet (cache : Cache σ) : Prop where
  contains : ∀ id fp t, (cache.contains id fp t).2.world = t.world
  restore : ∀ id target t, ∃ writes,
    (cache.restore id target t).2.world = target.put writes t.world

variable {cache : Cache σ} {id : BuilderId} {fp : Fingerprint} {target : Directory σ}
  {outputs : Outputs} {t : Traced σ}

theorem Provided.discreet (h : cache.Provided) : cache.Discreet := by
  cases h with
  | memory part =>
    refine ⟨fun id fp t => ?_, fun id target t => ?_⟩
    · unfold MemoryCache.cache
      simp only [Action.bind_apply, Action.ask_apply]
      cases (part.get t.world).contains id fp <;> rfl
    · unfold MemoryCache.cache
      simp only [Action.bind_apply, Action.ask_apply]
      cases (part.get t.world).files id with
      | error e => exact ⟨[], rfl⟩
      | ok files => exact target.writeAll_eq_put files.entries t.world
  | disk part c =>
    refine ⟨fun id fp t => (DiskCache.contains_eq part c id fp t).2, fun id target t => ?_⟩
    unfold DiskCache.cache
    simp only [Action.bind_apply, Action.ask_apply]
    cases c.readIndex id (part.get t.world) with
    | error e => exact ⟨[], rfl⟩
    | ok index =>
      obtain ⟨writes, hwrites⟩ := DiskCache.copyOut_eq_put part (DiskCache.filesIn (c.entryDir id))
        id target index.files.toList t.world
      refine ⟨writes, Eq.trans ?_ hwrites⟩
      simp only [Action.bind_apply, Action.change_apply]
      cases (DiskCache.copyOut part (DiskCache.filesIn (c.entryDir id)) id target
        index.files.toList t.world).1 <;> rfl

/-- The cache has an entry for the fingerprint, and it can be restored. -/
def Hits (cache : Cache σ) (id : BuilderId) (fp : Fingerprint) (target : Directory σ)
    (t : Traced σ) (outputs : Outputs) : Prop :=
  (cache.contains id fp t).1 = true ∧
    (cache.restore id target (cache.contains id fp t).2).1 = .ok outputs

theorem reuse_eq_some_iff : (cache.reuse id fp target t).1 = some outputs ↔
    cache.Hits id fp target t outputs :=
  ⟨of_reuse, fun ⟨hfound, hrestored⟩ => (reuse_of_restored (Prod.ext hfound rfl) hrestored).1⟩

theorem Discreet.reuse (h : cache.Discreet) (id : BuilderId) (fp : Fingerprint)
    (target : Directory σ) (t : Traced σ) : ∃ writes,
    (cache.reuse id fp target t).2.world = target.put writes t.world := by
  have hcontains := h.contains id fp t
  unfold Cache.reuse
  rw [Action.bind_apply]
  generalize cache.contains id fp t = answer at hcontains
  obtain ⟨found, t₁⟩ := answer
  cases found with
  | false => exact ⟨[], hcontains⟩
  | true =>
    obtain ⟨writes, hwrites⟩ := h.restore id target t₁
    rw [show t₁.world = t.world from hcontains] at hwrites
    simp only [↓reduceIte, Action.bind_apply]
    generalize cache.restore id target t₁ = restored at hwrites
    obtain ⟨result, t₂⟩ := restored
    cases result <;> exact ⟨writes, hwrites⟩

end Cache

/-! ## Whether the builder inside is run -/

namespace Builder

variable {cache : Cache σ} {target : Directory σ} {inner : Builder σ} {t t₁ : Traced σ}

/-- The builder behind the cache is not run: what it would do makes no difference. -/
def Spared (inner : Builder σ) (cache : Cache σ) (target : Directory σ) (t : Traced σ) : Prop :=
  ∀ run, ({ inner with run } : Builder σ).runCached cache target t =
    inner.runCached cache target t

/-- The builder behind the cache is run once, and only the directory was written to before. Whatever
it does, its failure is how the call ends, and so are its outputs, which the cache is asked to keep.
-/
structure Invoked (inner : Builder σ) (cache : Cache σ) (target : Directory σ) (t t₁ : Traced σ) :
    Prop where
  before : ∃ writes, t₁.world = target.put writes t.world
  failed : ∀ run failure t₂, run t₁ = (.error failure, t₂) →
    ({ inner with run } : Builder σ).runCached cache target t = (.error failure, t₂)
  succeeded : ∀ run outputs t₂, run t₁ = (.ok outputs, t₂) → ∃ fp,
    inner.inputs.fingerprint t.world = .ok fp ∧
    ({ inner with run } : Builder σ).runCached cache target t =
      (.ok outputs, (cache.keep inner.id fp outputs target t₂).2)

theorem spared_of_unread {e : InputError} (h : inner.inputs.fingerprint t.world = .error e) :
    inner.Spared cache target t := fun run => by
  rw [runCached_of_unread h, runCached_of_unread (b := { inner with run }) h]

/-- The world once the inputs were surveyed. -/
def surveyed (inner : Builder σ) (t : Traced σ) : Traced σ :=
  (Action.tellAll (inner.inputs.survey t.world).1 t).2

theorem spared_of_hit {fp : Fingerprint} {outputs : Outputs}
    (h : inner.inputs.fingerprint t.world = .ok fp)
    (hhit : cache.Hits inner.id fp target (inner.surveyed t) outputs) :
    inner.Spared cache target t ∧ (inner.runCached cache target t).1 = .ok outputs := by
  have hreuse : cache.reuse inner.id fp target (inner.surveyed t) = (some outputs, _) :=
    Prod.ext (Cache.reuse_eq_some_iff.2 hhit) rfl
  refine ⟨fun run => ?_, ?_⟩
  · rw [runCached_of_reused h hreuse, runCached_of_reused (b := { inner with run }) h hreuse]
  · rw [runCached_of_reused h hreuse]

theorem invoked_of_miss {fp : Fingerprint} (hcache : cache.Discreet)
    (h : inner.inputs.fingerprint t.world = .ok fp)
    (hmiss : ∀ outputs, ¬cache.Hits inner.id fp target (inner.surveyed t) outputs) :
    ∃ t₁, inner.Invoked cache target t t₁ := by
  have hnone : (cache.reuse inner.id fp target (inner.surveyed t)).1 = none :=
    Option.eq_none_iff_forall_ne_some.2 fun outputs hsome =>
      hmiss outputs (Cache.reuse_eq_some_iff.1 hsome)
  obtain ⟨t₁, hreuse⟩ : ∃ t₁, cache.reuse inner.id fp target (inner.surveyed t) = (none, t₁) :=
    ⟨_, Prod.ext hnone rfl⟩
  obtain ⟨writes, hwrites⟩ := hcache.reuse inner.id fp target (inner.surveyed t)
  rw [hreuse] at hwrites
  refine ⟨t₁, ⟨writes, hwrites⟩, fun run failure t₂ hrun => ?_,
    fun run outputs t₂ hrun => ⟨fp, h, ?_⟩⟩
  · rw [runCached_of_missed (b := { inner with run }) h hreuse]
    simp only [hrun]
  · rw [runCached_of_missed (b := { inner with run }) h hreuse]
    simp only [hrun]

end Builder

/-! ## Calls that take locks -/

/-- What the calls of cached builders share: the world, and the locks of identities. -/
structure Shared (σ : Type) where
  traced : Traced σ
  locks : IdentityLocks := {}
  /-- The locks that somebody had who panicked. -/
  poisoned : List Nat := []

namespace Shared

/-- Taking a lock. If it is poisoned, it is handed out with an error. -/
def lock (s : Shared σ) (n : Nat) : Except Nat Nat :=
  if n ∈ s.poisoned then .error n else .ok n

/-- A call of a builder with a cache. It takes the lock of its identity, be it poisoned or not, and
gives it back in the end; if it panics, the lock is poisoned. -/
def call (s : Shared σ) (inner : Builder σ) (cache : Cache σ) (target : Directory σ) :
    Except RunFailure Outputs × Shared σ :=
  let (n, locks) := s.locks.get inner.id
  let guard := match s.lock n with
    | .ok guard => guard
    | .error guard => guard
  let (result, traced) := inner.runCached cache target s.traced
  match result with
  | .error .panicked => (result, ⟨traced, locks, guard :: s.poisoned⟩)
  | _ => (result, ⟨traced, locks, s.poisoned⟩)

/-- How calls end, one after the other, and the worlds they leave. -/
def answers (cache : Cache σ) : List (Builder σ × Directory σ) → Shared σ →
    List (Except RunFailure Outputs × Traced σ)
  | [], _ => []
  | (inner, target) :: rest, s =>
    ((s.call inner cache target).1, (s.call inner cache target).2.traced) ::
      answers cache rest (s.call inner cache target).2

variable {cache : Cache σ} {s s' : Shared σ}

theorem call_eq (s : Shared σ) (inner : Builder σ) (cache : Cache σ) (target : Directory σ) :
    (s.call inner cache target).1 = (inner.runCached cache target s.traced).1 ∧
      (s.call inner cache target).2.traced = (inner.runCached cache target s.traced).2 := by
  unfold call
  generalize inner.runCached cache target s.traced = ran
  obtain ⟨result, traced⟩ := ran
  dsimp only
  split
  · exact ⟨rfl, rfl⟩
  · exact ⟨rfl, rfl⟩

theorem answers_congr : ∀ {calls : List (Builder σ × Directory σ)} {s s' : Shared σ},
    s.traced = s'.traced → answers cache calls s = answers cache calls s'
  | [], _, _, _ => rfl
  | (inner, target) :: rest, s, s', h => by
    obtain ⟨hresult, htraced⟩ := s.call_eq inner cache target
    obtain ⟨hresult', htraced'⟩ := s'.call_eq inner cache target
    rw [← h] at hresult' htraced'
    have hnext := htraced.trans htraced'.symm
    rw [answers, answers, hresult, hresult', hnext, answers_congr hnext]

/-- How a call ends, for caches in any state. It fails if the inputs cannot be read, or if the
builder behind the cache is run and fails, and then just so. That builder is run unless the inputs
cannot be read or the cache has an entry for them that can be restored. A call that fails leaves the
cache as it was: what held of it before still does, if neither writing to the directory nor the
failing builder breaks it. And it is nothing to those who call later that it had the lock. -/
theorem faults_contained (hcache : cache.Provided) (inner : Builder σ) (target : Directory σ)
    (s : Shared σ) :
    let ended := s.call inner cache target
    (∀ e, inner.inputs.fingerprint s.traced.world = .error e →
      inner.Spared cache target s.traced ∧ ended.1 = .error (.failed (.inputs e)) ∧
        ended.2.traced.world = s.traced.world) ∧
    (∀ fp, inner.inputs.fingerprint s.traced.world = .ok fp →
      (∀ outputs, cache.Hits inner.id fp target (inner.surveyed s.traced) outputs →
        inner.Spared cache target s.traced ∧ ended.1 = .ok outputs) ∧
      ((∀ outputs, ¬cache.Hits inner.id fp target (inner.surveyed s.traced) outputs) →
        ∃ t, inner.Invoked cache target s.traced t)) ∧
    (∀ failure, ended.1 = .error failure ↔
      (∃ e, inner.inputs.fingerprint s.traced.world = .error e ∧ failure = .failed (.inputs e)) ∨
        ∃ t, inner.Invoked cache target s.traced t ∧ (inner.run t).1 = .error failure) ∧
    ((∃ failure, ended.1 = .error failure) →
      (∀ Kept : σ → Prop, (∀ p content w, Kept w → Kept (target.write p content w).2) →
        (∀ t failure, (inner.run t).1 = .error failure →
          Kept t.world → Kept (inner.run t).2.world) →
        Kept s.traced.world → Kept ended.2.traced.world) ∧
      ∀ later, answers cache later ended.2 =
        answers cache later { s with traced := ended.2.traced }) := by
  intro ended
  obtain ⟨hresult, htraced⟩ := s.call_eq inner cache target
  have hunread {e : InputError} (he : inner.inputs.fingerprint s.traced.world = .error e) :
      ended.1 = .error (.failed (.inputs e)) ∧ ended.2.traced.world = s.traced.world := by
    rw [hresult, htraced, Builder.runCached_of_unread he]
    exact ⟨rfl, rfl⟩
  have hran {t : Traced σ} {failure : RunFailure} (h : inner.Invoked cache target s.traced t)
      (hfailure : (inner.run t).1 = .error failure) :
      ended.1 = .error failure ∧ ended.2.traced = (inner.run t).2 := by
    have hwhole : inner.runCached cache target s.traced = (.error failure, (inner.run t).2) :=
      h.failed inner.run failure _ (Prod.ext hfailure rfl)
    rw [hresult, htraced, hwhole]
    exact ⟨rfl, rfl⟩
  have hhit {fp : Fingerprint} {outputs : Outputs}
      (hfp : inner.inputs.fingerprint s.traced.world = .ok fp)
      (h : cache.Hits inner.id fp target (inner.surveyed s.traced) outputs) :
      inner.Spared cache target s.traced ∧ ended.1 = .ok outputs := by
    obtain ⟨hspared, hok⟩ := Builder.spared_of_hit hfp h
    exact ⟨hspared, hresult.trans hok⟩
  -- a failure comes from the inputs or from the builder
  have hfailed {failure : RunFailure} (h : ended.1 = .error failure) :
      (∃ e, inner.inputs.fingerprint s.traced.world = .error e ∧ failure = .failed (.inputs e)) ∨
        ∃ t, inner.Invoked cache target s.traced t ∧ (inner.run t).1 = .error failure := by
    cases hfp : inner.inputs.fingerprint s.traced.world with
    | error e => exact .inl ⟨e, rfl, Except.error.inj (h.symm.trans (hunread hfp).1)⟩
    | ok fp =>
      by_cases hhits : ∃ outputs, cache.Hits inner.id fp target (inner.surveyed s.traced) outputs
      · obtain ⟨outputs, hhits⟩ := hhits
        cases h.symm.trans (hhit hfp hhits).2
      · obtain ⟨t, hinvoked⟩ := Builder.invoked_of_miss hcache.discreet hfp (not_exists.1 hhits)
        refine .inr ⟨t, hinvoked, ?_⟩
        cases hrun : (inner.run t).1 with
        | error e => exact congrArg _ (Except.error.inj ((hran hinvoked hrun).1.symm.trans h))
        | ok outputs =>
          obtain ⟨_, -, hwhole⟩ := hinvoked.succeeded inner.run outputs _ (Prod.ext hrun rfl)
          cases h.symm.trans (hresult.trans (congrArg Prod.fst hwhole))
  refine ⟨fun e he => ⟨Builder.spared_of_unread he, hunread he⟩, fun fp hfp =>
    ⟨fun outputs => hhit hfp, Builder.invoked_of_miss hcache.discreet hfp⟩, fun failure =>
    ⟨hfailed, ?_⟩, ?_⟩
  · rintro (⟨e, he, rfl⟩ | ⟨t, hinvoked, hfailure⟩)
    · exact (hunread he).1
    · exact (hran hinvoked hfailure).1
  · rintro ⟨failure, h⟩
    refine ⟨fun Kept hwrite hrun hkept => ?_, fun later => answers_congr rfl⟩
    rcases hfailed h with ⟨e, he, -⟩ | ⟨t, hinvoked, hfailure⟩
    · rwa [(hunread he).2]
    · obtain ⟨writes, hwrites⟩ := hinvoked.before
      rw [(hran hinvoked hfailure).2]
      refine hrun t failure hfailure ?_
      rw [hwrites]
      exact Directory.put_induction hwrite hkept

/-- A builder that breaks down. -/
def breaking : Builder (Site Unit) := ⟨⟨"b", "x"⟩, 0, .nothing, pure (.error .panicked), []⟩

/-- A cache in memory that has an entry for the builder, under a fingerprint that is none. -/
def stocked : Shared (Site Unit) where
  traced := ⟨⟨⟨"target", ∅⟩, ⟨SortedMap.insert ∅ ⟨"b", "x"⟩ ⟨[1], ∅⟩⟩, {}, ()⟩, []⟩

/-- A call that panics poisons the lock, but the entry is still there, and the next call goes on as
if nobody had had the lock. -/
theorem faults_contained_panic :
    let cache := MemoryCache.cache Site.memoryPart
    let ended := stocked.call breaking cache Site.directory
    ended.1 = .error .panicked ∧ ended.2.poisoned = [0] ∧
      ended.2.traced.world.memory = stocked.traced.world.memory ∧
      ∀ later, answers cache later ended.2 =
        answers cache later { stocked with traced := ended.2.traced } := by
  intro cache ended
  have hended : ended.1 = .error .panicked := by rfl
  obtain ⟨-, -, -, hfailed⟩ :=
    faults_contained (.memory Site.memoryPart) breaking Site.directory stocked
  obtain ⟨hkept, hlater⟩ := hfailed ⟨.panicked, hended⟩
  exact ⟨hended, by rfl, hkept (·.memory = stocked.traced.world.memory) (fun _ _ _ h => h)
    (fun _ _ _ h => h) rfl, hlater⟩

end Shared

end Rebuild
