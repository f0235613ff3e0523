import Rebuild.Proofs.Incremental.Workshop

/-!
# Builders with a cache in front of them

A cache may be trusted if it hands out nothing but what the workshop says, and
goes on doing so after it has stored what a run left in the target. A builder
that delivers still does with such a cache in front of it, whether the cache has
its outputs, has none, or fails to restore or to store them.

* `Workshop.Trusts`: what a cache must do.
* `Workshop.Delivers.cached`: a cached builder delivers.
-/
namespace Rebuild

/-! ## Runs of cached builders -/

namespace Builder

variable {σ : Type} {b : Builder σ} {cache : Cache σ} {target : Directory σ} {t t₁ : Traced σ}
  {fp : Fingerprint}

theorem runCached_of_unread {e : InputError} (hsurvey : b.inputs.fingerprint t.world = .error e) :
    b.runCached cache target t =
      (.error (.failed (.inputs e)), (Action.tellAll (b.inputs.survey t.world).1 t).2) := by
  have hget : (get : Action σ _) t = (t, t) := rfl
  have hsurvey : (b.inputs.survey t.world).2 = .error e := hsurvey
  unfold Builder.runCached
  simp only [Action.bind_apply, hget, hsurvey]
  rfl

theorem runCached_of_reused {outputs : Outputs} (hsurvey : b.inputs.fingerprint t.world = .ok fp)
    (hreuse : cache.reuse b.id fp target
      (Action.tellAll (b.inputs.survey t.world).1 t).2 = (some outputs, t₁)) :
    b.runCached cache target t = (.ok outputs, t₁) := by
  have hget : (get : Action σ _) t = (t, t) := rfl
  have hsurvey : (b.inputs.survey t.world).2 = .ok fp := hsurvey
  unfold Builder.runCached
  simp only [Action.bind_apply, hget, hsurvey, hreuse]
  rfl

theorem runCached_of_missed (hsurvey : b.inputs.fingerprint t.world = .ok fp)
    (hreuse : cache.reuse b.id fp target
      (Action.tellAll (b.inputs.survey t.world).1 t).2 = (none, t₁)) :
    b.runCached cache target t =
      match b.run t₁ with
      | (.error failure, t₂) => (.error failure, t₂)
      | (.ok outputs, t₂) => (.ok outputs, (cache.keep b.id fp outputs target t₂).2) := by
  have hget : (get : Action σ _) t = (t, t) := rfl
  have hsurvey : (b.inputs.survey t.world).2 = .ok fp := hsurvey
  unfold Builder.runCached
  simp only [Action.bind_apply, hget, hsurvey, hreuse]
  generalize b.run t₁ = ran
  obtain ⟨result, t₂⟩ := ran
  cases result <;> rfl

end Builder

namespace Workshop

variable {ρ ι : Type} {w : Workshop ρ ι} {Kept : Site ρ → Prop}

/-- Copying a product into the target, maybe not all of it. -/
structure Copied (product : Product) (s s' : Site ρ) (result : Except CacheError Outputs) :
    Prop where
  site : ∃ files, s' = { s with target := { s.target with files } }
  others : ∀ p, p ∉ product.outputs → s'.target.files.get? p = s.target.files.get? p
  complete : ∀ outputs, result = .ok outputs → outputs = product.outputs ∧
    ∀ p ∈ product.outputs, s'.target.files.get? p = product.content p

/-- A cache can be trusted in sites of a kind. -/
structure Trusts (w : Workshop ρ ι) (Kept : Site ρ → Prop) (cache : Cache (Site ρ)) : Prop where
  /-- Whether a site is of the kind has nothing to do with the target. -/
  retarget : ∀ s target, Kept s → Kept { s with target }
  contains : ∀ id fp t, Told t (cache.contains id fp t).2
  restore : ∀ id fp t t', fp.isBuiltIn = true → Kept t.world →
    (cache.contains id fp t).1 = true → Told t t' → ∃ product, w.outcome id fp = some product ∧
      Copied product t.world (cache.restore id Site.directory t').2.world
        (cache.restore id Site.directory t').1
  store : ∀ id fp product t, fp.isBuiltIn = true → w.outcome id fp = some product →
    Kept t.world → (∀ p ∈ product.outputs, t.world.target.files.get? p = product.content p) →
    Kept (cache.store id fp product.outputs Site.directory t).2.world ∧
      (cache.store id fp product.outputs Site.directory t).2.world.target = t.world.target ∧
      w.inputs (cache.store id fp product.outputs Site.directory t).2.world = w.inputs t.world

theorem Copied.confined {product : Product} {s s' : Site ρ} {result : Except CacheError Outputs}
    {id : BuilderId} {fp : Fingerprint} (h : Copied product s s' result)
    (hproduct : w.outcome id fp = some product) : w.Confined id s s' := by
  have hothers (p : RelativePath) (hp : ¬w.own id p) :
      s'.target.files.get? p = s.target.files.get? p :=
    h.others p fun hmem => hp (w.own_outputs hproduct p hmem)
  refine ⟨?_, hothers⟩
  obtain ⟨files, rfl⟩ := h.site
  exact w.inputs_eq _ _ rfl (fun p hp => hothers p (hp id)) fun _ _ => rfl

/-- What a trusted cache has is what the workshop says; what it has not does no harm. -/
theorem Trusts.reuse {cache : Cache (Site ρ)} (h : w.Trusts Kept cache) (id : BuilderId)
    (fp : Fingerprint) (t : Traced (Site ρ)) (hfp : fp.isBuiltIn = true) (hkept : Kept t.world) :
    Kept (cache.reuse id fp Site.directory t).2.world ∧
      w.Confined id t.world (cache.reuse id fp Site.directory t).2.world ∧
      ∀ outputs, (cache.reuse id fp Site.directory t).1 = some outputs →
        ∃ product, w.outcome id fp = some product ∧ outputs = product.outputs ∧
          ∀ p ∈ product.outputs,
            (cache.reuse id fp Site.directory t).2.world.target.files.get? p =
              product.content p := by
  have htold := h.contains id fp t
  have hrestore := h.restore id fp t (cache.contains id fp t).2 hfp hkept
  unfold Cache.reuse
  rw [Action.bind_apply]
  generalize cache.contains id fp t = answer at htold hrestore
  obtain ⟨found, t₁⟩ := answer
  obtain ⟨events, rfl⟩ := htold
  cases found with
  | false => exact ⟨hkept, ⟨rfl, fun _ _ => rfl⟩, fun outputs h => by cases h⟩
  | true =>
    obtain ⟨product, hproduct, hcopied⟩ := hrestore rfl ⟨events, rfl⟩
    simp only [↓reduceIte, Action.bind_apply]
    generalize cache.restore id Site.directory _ = restored at hcopied
    obtain ⟨result, t₂⟩ := restored
    have hkept' : Kept t₂.world := by
      obtain ⟨files, heq⟩ := hcopied.site
      rw [heq]
      exact h.retarget _ _ hkept
    have hconfined := hcopied.confined hproduct
    cases result with
    | error e => exact ⟨hkept', hconfined, fun outputs h => by cases h⟩
    | ok outputs =>
      refine ⟨hkept', hconfined, fun outputs' heq => ?_⟩
      cases heq
      obtain ⟨rfl, hcontent⟩ := hcopied.complete outputs rfl
      exact ⟨product, hproduct, rfl, hcontent⟩

/-- Storing what a builder made leaves everything right. -/
theorem Trusts.keep {cache : Cache (Site ρ)} (h : w.Trusts Kept cache) {id : BuilderId}
    {fp : Fingerprint} {product : Product} {t : Traced (Site ρ)} (hfp : fp.isBuiltIn = true)
    (hproduct : w.outcome id fp = some product) (hkept : Kept t.world)
    (hcontent : ∀ p ∈ product.outputs, t.world.target.files.get? p = product.content p) :
    Kept (cache.keep id fp product.outputs Site.directory t).2.world ∧
      (cache.keep id fp product.outputs Site.directory t).2.world.target = t.world.target ∧
      w.inputs (cache.keep id fp product.outputs Site.directory t).2.world = w.inputs t.world := by
  have hstore := h.store id fp product t hfp hproduct hkept hcontent
  unfold Cache.keep
  rw [Action.bind_apply]
  generalize cache.store id fp product.outputs Site.directory t = stored at hstore
  obtain ⟨result, t₁⟩ := stored
  cases result with
  | error e => exact hstore
  | ok => exact hstore

/-! ## Right runs -/

section Running

variable {b : Builder (Site ρ)} {cache : Cache (Site ρ)} {t t₂ : Traced (Site ρ)}
  {fp : Fingerprint} {outputs : Outputs}

theorem Right.stored (hcache : w.Trusts Kept cache) (hfp : fp = w.print b.id (w.inputs t.world))
    (hkept : Kept t₂.world) (h : w.Right b.id t.world (.ok outputs) t₂.world) :
    Kept (cache.keep b.id fp outputs Site.directory t₂).2.world ∧
      w.Right b.id t.world (.ok outputs)
        (cache.keep b.id fp outputs Site.directory t₂).2.world := by
  subst hfp
  obtain ⟨product, hproduct, rfl⟩ := h.ends.of_ok
  have hholds : ∀ p ∈ product.outputs, t₂.world.target.files.get? p = product.content p :=
    fun p => h.holds.get? h.inputs hproduct
  obtain ⟨hkept', htarget, hinputs⟩ := hcache.keep (w.isBuiltIn_print _ _) hproduct hkept hholds
  refine ⟨hkept', ⟨hinputs.trans h.inputs, ?_⟩, h.ends, ?_⟩
  · intro p hp
    rw [htarget]
    exact h.others p hp
  · intro product' hproduct'
    rw [product_eq (hinputs.trans h.inputs), hproduct] at hproduct'
    cases hproduct'
    rw [htarget]
    exact hholds

end Running

/-- A builder that delivers still does with a trusted cache in front of it. -/
theorem Delivers.cached {b : Builder (Site ρ)} {cache : Cache (Site ρ)} (h : w.Delivers Kept b)
    (hcache : w.Trusts Kept cache) (serial : Nat) (locks : List Nat) :
    w.Delivers Kept (b.cached serial cache Site.directory locks) := by
  refine ⟨h.survey, ?_⟩
  intro t hkept
  show Kept (b.runCached cache Site.directory t).2.world ∧
    w.Right b.id t.world (b.runCached cache Site.directory t).1
      (b.runCached cache Site.directory t).2.world
  have hsurvey := h.survey t.world
  obtain ⟨hkept₁, hconfined, hfound⟩ := hcache.reuse b.id (w.print b.id (w.inputs t.world))
    (Action.tellAll (b.inputs.survey t.world).1 t).2 (w.isBuiltIn_print _ _) hkept
  generalize hreuse : cache.reuse b.id (w.print b.id (w.inputs t.world)) Site.directory
    (Action.tellAll (b.inputs.survey t.world).1 t).2 = reused at hkept₁ hconfined hfound
  obtain ⟨found, t₁⟩ := reused
  cases found with
  | some outputs =>
    rw [Builder.runCached_of_reused hsurvey hreuse]
    obtain ⟨product, hproduct, rfl, hcontent⟩ := hfound outputs rfl
    refine ⟨hkept₁, hconfined, ?_, ?_⟩
    · have hproduct : w.product b.id t.world = some product := hproduct
      rw [hproduct]
      rfl
    · intro product' hproduct'
      rw [product_eq hconfined.inputs] at hproduct'
      cases hproduct.symm.trans hproduct'
      exact hcontent
  | none =>
    rw [Builder.runCached_of_missed hsurvey hreuse]
    obtain ⟨hkept₂, hright⟩ := h.run t₁ hkept₁
    generalize b.run t₁ = ran at hkept₂ hright
    obtain ⟨result, t₂⟩ := ran
    have hright : w.Right b.id t.world result t₂.world := .of_confined hconfined hright
    cases result with
    | error failure => exact ⟨hkept₂, hright⟩
    | ok outputs => exact hright.stored hcache rfl hkept₂

end Workshop

end Rebuild
