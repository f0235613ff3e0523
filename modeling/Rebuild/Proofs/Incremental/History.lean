import Rebuild.Proofs.Incremental.Storage

/-!
# Builds one after the other

Between builds inputs are edited, outputs are deleted or overwritten, entries of the
cache are removed, and a cache on the disk is closed and opened again. Whatever came
before, a build reports what a build with nothing stored would report, and leaves the
same outputs behind.

* `Workshop.Step`: what may happen, a build or something between builds.
* `Workshop.Reached`: what has come about after any number of steps.
* `Kept.step`, `Reached.kept`: what is stored was always made of products.
* `rebuild_eq_clean`: a build is as good as one from scratch.
-/
namespace Rebuild

namespace Workshop

variable {ρ ι : Type} {w : Workshop ρ ι} {st st' : Storage} {s s' : Site ρ}
  {t t' : Traced (Site ρ)}

/-! ## Steps -/

/-- What may happen to a site and to what is stored. -/
inductive Step (w : Workshop ρ ι) : Storage → Site ρ → Storage → Site ρ → Prop
  /-- Inputs and the target are changed at will. -/
  | edit {st : Storage} {s s' : Site ρ} (spares : w.Spares s s') : Step w st s st s'
  /-- Builders run, all or those that a root needs. -/
  | build {st : Storage} {edits : List EdgeEdit} {c : Context (Site ρ)} {schedule : Schedule}
      (staffed : w.Staffed st edits c) (order : ∀ wave, (schedule wave).Perm wave)
      (root : Option BuilderId) (t : Traced (Site ρ)) :
      Step w st t.world st (c.execute schedule root t).2.world
  /-- An entry in memory is removed. -/
  | forget (id : BuilderId) (s : Site ρ) :
      Step w .memory s .memory (Site.memoryPart.change (·.remove id) s).2
  /-- An entry on the disk is removed. -/
  | remove (c : DiskCache) (id : BuilderId) (s : Site ρ) :
      Step w (.disk c) s (.disk c) (Site.diskPart.change (c.remove id).run s).2
  | clear (c : DiskCache) (t : Traced (Site ρ)) :
      Step w (.disk c) t.world (.disk c) (c.clearIn Site.diskPart t).2.world
  | close (c : DiskCache) (s : Site ρ) :
      Step w (.disk c) s (.disk c) { s with disk := c.lock.release s.disk }
  | reopen {c c' : DiskCache} {process started : Nat} {t t' : Traced (Site ρ)}
      (opened : DiskCache.openIn Site.diskPart c.root .standard process started t = (.ok c', t')) :
      Step w (.disk c) t.world (.disk c') t'.world
  /-- Somebody tries to open the cache and fails, maybe since it is open. -/
  | refused {c : DiskCache} {e : CacheError} {process started : Nat} {t t' : Traced (Site ρ)}
      (opened : DiskCache.openIn Site.diskPart c.root .standard process started t =
        (.error e, t')) :
      Step w (.disk c) t.world (.disk c) t'.world

/-- What has come about since nothing was stored. -/
inductive Reached (w : Workshop ρ ι) : Storage → Site ρ → Prop
  | start {st : Storage} {s : Site ρ} (empty : w.Empty st s) : Reached w st s
  | step {st st' : Storage} {s s' : Site ρ} (reached : Reached w st s)
      (step : w.Step st s st' s') : Reached w st' s'

/-! ## What is stored stays right -/

theorem change_diskPart {α : Type} (f : Disk → α × Disk) (s : Site ρ) :
    (Site.diskPart.change f s).2 = { s with disk := (f s.disk).2 } := rfl

theorem clearIn_world (c : DiskCache) (t : Traced (Site ρ)) :
    (c.clearIn Site.diskPart t).2.world =
      { t.world with disk := (c.clear.run t.world.disk).2 } := by
  rw [← change_diskPart]
  unfold DiskCache.clearIn
  rw [Action.bind_apply, Action.change_apply]
  generalize Site.diskPart.change c.clear.run t.world = cleared
  obtain ⟨result, s⟩ := cleared
  cases result <;> rfl

theorem Kept.build {edits : List EdgeEdit} {c : Context (Site ρ)} {schedule : Schedule}
    (h : w.Kept st t.world) (hc : w.Staffed st edits c)
    (hschedule : ∀ wave, (schedule wave).Perm wave) (root : Option BuilderId) :
    w.Kept st (c.execute schedule root t).2.world := by
  rcases Context.execute_side_by_side hc.hasRun hc.hasRun hc.transformations hc.transformations
    rfl rfl rfl hschedule hschedule root t t with
    ⟨e, d, d', u, u', hrun, -, ⟨events, rfl⟩, -⟩ |
    ⟨edges, plan, report, -, runs, -, d, -, u, -, hrun, -, hruns, -⟩
  · rw [hrun]
    exact h
  · rw [hrun]
    exact (hruns.right (fun n id b hnode => hc.delivers edges hnode) h).1

theorem KeptOnDisk.reopened {c : DiskCache} {process started : Nat} (h : w.KeptOnDisk c t.world)
    {opened : Except CacheError DiskCache}
    (hopened : DiskCache.openIn Site.diskPart c.root .standard process started t = (opened, t')) :
    w.KeptOnDisk c t'.world ∧ ∀ c', opened = .ok c' → w.KeptOnDisk c' t'.world := by
  have htaken := (CacheLock.meets_acquire h.footing ⟨DiskCache.holderName, process, started⟩).run
  obtain ⟨hworld, hof⟩ := DiskCache.of_openIn hopened
  rw [hworld]
  refine ⟨h.taken rfl h.registry htaken, fun c' heq => ?_⟩
  obtain ⟨hroot, hregistry, -⟩ := hof c' heq
  exact h.taken hroot hregistry htaken

theorem Kept.step (h : w.Kept st s) (hstep : w.Step st s st' s') : w.Kept st' s' := by
  cases hstep with
  | edit spares => exact h.of_spares spares
  | build staffed order root t => exact h.build staffed order root
  | forget id =>
    intro a entry hentry
    have hentry : (s.memory.entries.erase id).get? a = some entry := hentry
    rw [SortedMap.get?_erase] at hentry
    split at hentry
    · cases hentry
    · exact h a entry hentry
  | remove c id =>
    rw [change_diskPart]
    exact KeptOnDisk.thinned h (DiskCache.meets_remove h.footing id).run
  | clear c t =>
    rw [clearIn_world]
    exact KeptOnDisk.thinned h (DiskCache.meets_clear h.footing).run
  | close c =>
    refine ⟨h.registry, h.footing.congr fun _ => rfl, ?_⟩
    intro name hname
    exact (h.entries name hname).of_same fun _ => rfl
  | reopen opened => exact (KeptOnDisk.reopened h opened).2 _ rfl
  | refused opened => exact (KeptOnDisk.reopened h opened).1

theorem Reached.kept (h : w.Reached st s) : w.Kept st s := by
  induction h with
  | start empty => exact empty.kept
  | step reached step ih => exact ih.step step

/-! ## A build is as good as one from scratch -/

/-- Two builds come to the same: both fail for the same reason before any builder is run, or they
report alike, the same results can be asked for, and the targets hold the same at all outputs. -/
def SameBuild (built built' : (Except BuildError Report × Context (Site ρ)) × Traced (Site ρ)) :
    Prop :=
  match built.1.1, built'.1.1 with
  | .error e, .error e' => e = e'
  | .ok report, .ok report' => report.Alike report' ∧
    (∀ id, built.1.2.resultsOf id = built'.1.2.resultsOf id) ∧
    ∀ id outputs, report.results.get? id = some outputs → ∀ p ∈ outputs,
      built.2.world.target.files.get? p = built'.2.world.target.files.get? p
  | _, _ => False

section Builds

variable {edits : List EdgeEdit} {c c' : Context (Site ρ)} {schedule schedule' : Schedule}

/-- What is reported of a build is what the workshop says of the inputs, and the target holds it. -/
structure Yields (w : Workshop ρ ι) (s : Site ρ) (report : Report) (s' : Site ρ) : Prop where
  made : ∀ id outputs, report.results.get? id = some outputs → ∃ product,
    w.product id s = some product ∧ outputs = product.outputs ∧
      ∀ p ∈ outputs, s'.target.files.get? p = product.content p
  failed : ∀ id, report.Failed id → w.product id s = none

theorem yields_of_runs {g : Graph (Builder (Site ρ))} {plan : Plan} {failFast : Bool}
    {report : Report} {runs : List (Nat × Except RunFailure Outputs)}
    (hright : report.Right g plan failFast runs) (hinputs : w.inputs s' = w.inputs s)
    (hends : ∀ n result, (n, result) ∈ runs →
      EndsAs (w.product (g.idAt n) s) result ∧ w.Holds (g.idAt n) s') : w.Yields s report s' := by
  refine ⟨?_, ?_⟩
  · intro id outputs hget
    obtain ⟨n, hn, rfl⟩ := (hright.results_iff id outputs).1 hget
    obtain ⟨hend, hholds⟩ := hends n _ hn
    obtain ⟨product, hproduct, rfl⟩ := hend.of_ok
    exact ⟨product, hproduct, rfl, fun p hp => hholds.get? hinputs hproduct hp⟩
  · intro id ⟨e, he, hid⟩
    obtain ⟨n, failure, hn, rfl⟩ := (hright.failed_iff e).1 he
    rw [builder?_error] at hid
    rw [← Option.some.inj hid]
    exact (hends n _ hn).1.of_error

/-- Two builds of the same identities come to the same if the inputs are the same, and if what is
stored was made of products. -/
theorem Kept.sameBuild (h : w.Kept st t.world) (h' : w.Kept st' t'.world)
    (hinputs : w.inputs t.world = w.inputs t'.world) (hc : w.Staffed st edits c)
    (hc' : w.Staffed st' edits c') (hids : c.graph.ids = c'.graph.ids)
    (hedges : c.graph.edges = c'.graph.edges) (hconfig : c.config = c'.config)
    (hschedule : ∀ wave, (schedule wave).Perm wave)
    (hschedule' : ∀ wave, (schedule' wave).Perm wave) (root : Option BuilderId) :
    SameBuild (c.execute schedule root t) (c'.execute schedule' root t') ∧
      ∀ report, (c.execute schedule root t).1.1 = .ok report →
        w.Yields t.world report (c.execute schedule root t).2.world := by
  rcases Context.execute_side_by_side hc.hasRun hc'.hasRun hc.transformations hc'.transformations
    hids hedges hconfig hschedule hschedule' root t t' with
    ⟨e, d, d', u, u', hrun, hrun', -, -⟩ |
    ⟨edges, plan, report, report', runs, runs', d, d', u, u', hrun, hrun', hruns, hruns', hright,
      hright', halike⟩
  · rw [hrun, hrun']
    exact ⟨rfl, nofun⟩
  · rw [hrun, hrun']
    have hidAt : (c.edited edges).idAt = (c'.edited edges).idAt := Graph.idAt_congr hids
    have hproduct (id : BuilderId) : w.product id t'.world = w.product id t.world :=
      product_eq hinputs.symm id
    obtain ⟨-, hsame, -, hends⟩ := hruns.right (fun n id b hnode => hc.delivers edges hnode) h
    obtain ⟨-, hsame', -, hends'⟩ := hruns'.right (fun n id b hnode => hc'.delivers edges hnode) h'
    have hyields := yields_of_runs hright hsame hends
    have hyields' := yields_of_runs hright' hsame' hends'
    have hrunsAlike : Context.RunsAlike runs runs' := by
      intro n result result' hn hn'
      have hend' := (hends' n result' hn').1
      rw [hproduct, ← hidAt] at hend'
      exact (hends n result hn).1.plain_eq hend'
    obtain ⟨hreport, hresults⟩ := halike hrunsAlike
    refine ⟨⟨hreport, hresults, ?_⟩, ?_⟩
    · intro id outputs hget p hp
      obtain ⟨product, hmade, -, hcontent⟩ := hyields.made id outputs hget
      rw [hreport.results] at hget
      obtain ⟨product', hmade', -, hcontent'⟩ := hyields'.made id outputs hget
      cases hmade.symm.trans ((hproduct id).symm.trans hmade')
      exact (hcontent p hp).trans (hcontent' p hp).symm
    · intro _ heq
      cases heq
      exact hyields

/-- A build after any history comes to the same as one with nothing stored, on the same inputs, and
that is what the workshop says. What the two share to keep outputs in may differ; the other may
have nothing, and then it runs all builders. -/
theorem rebuild_eq_clean (h : w.Reached st t.world) (hempty : w.Empty st' t'.world)
    (hinputs : w.inputs t.world = w.inputs t'.world) (hc : w.Staffed st edits c)
    (hc' : w.Staffed st' edits c') (hids : c.graph.ids = c'.graph.ids)
    (hedges : c.graph.edges = c'.graph.edges) (hconfig : c.config = c'.config)
    (hschedule : ∀ wave, (schedule wave).Perm wave)
    (hschedule' : ∀ wave, (schedule' wave).Perm wave) (root : Option BuilderId) :
    SameBuild (c.execute schedule root t) (c'.execute schedule' root t') ∧
      ∀ report, (c.execute schedule root t).1.1 = .ok report →
        w.Yields t.world report (c.execute schedule root t).2.world :=
  h.kept.sameBuild hempty.kept hinputs hc hc' hids hedges hconfig hschedule hschedule' root

end Builds

end Workshop

/-! ## A builder with a flag -/

namespace Stamp
open Workshop

def path : RelativePath := ⟨["stamp"], by decide, by decide, by decide⟩

def builderId : BuilderId := ⟨"b", "stamp"⟩

/-- The fingerprint of the flag. -/
def print (flag : Bool) : Fingerprint :=
  .parameters "flag" (ContentHash.ofBytes (Bytes.ofText (Json.compact (.bool flag))))

/-- What is written for a fingerprint. -/
def content : Fingerprint → Bytes
  | .parameters _ digest => Bytes.ofText digest.text
  | _ => []

/-- Writes down the fingerprint of the flag. -/
def builder : Builder (Site Bool) where
  id := builderId
  serial := 0
  inputs := .parameters "flag" fun s => .bool s.rest
  run := Action.change fun s =>
    (.ok (.ofList [path]), { s with target := s.target.write path (content (print s.rest)) })

/-- The directory of the cache. -/
def vault : Place := [Bytes.ofText "cache"]

def workshop : Workshop Bool Bool where
  inputs := Site.rest
  print _ := print
  isBuiltIn_print _ _ := rfl
  outcome id fp :=
    if id = builderId then some ⟨.ofList [path], fun _ => some (content fp)⟩ else none
  own id p := id = builderId ∧ p = path
  own_unique ha hb := ha.1.trans hb.1.symm
  own_outputs := by
    intro id fp product h p hp
    split at h
    next hid =>
      cases h
      rw [SortedSet.mem_ofList, List.mem_singleton] at hp
      exact ⟨hid, hp⟩
    next => cases h
  vault
  inputs_eq _ _ h _ _ := h

theorem makes : workshop.Makes builder := by
  refine ⟨fun s => rfl, fun t => ⟨rfl, fun _ => rfl, fun _ h => h⟩, ?_⟩
  intro t
  refine ⟨⟨rfl, ?_⟩, rfl, ?_⟩
  · intro p hp
    have hne : p ≠ path := fun e => hp ⟨rfl, e⟩
    exact SortedMap.get?_insert_of_ne hne
  · intro product hproduct p hp
    cases hproduct
    rw [SortedSet.mem_ofList, List.mem_singleton] at hp
    rw [hp]
    exact SortedMap.get?_insert_self _ _ _

/-- The cache, as it is open. -/
def cache : DiskCache where
  root := Bytes.ofText "/cache"
  registry := .standard
  lock := ⟨Bytes.ofText "/cache/.lock", 0⟩

/-- A disk with nothing but the directory of the cache, which was just opened. -/
def disk : Disk :=
  (DiskOp.makeFile (vault ++ [CacheLock.fileName]) []).apply ((DiskOp.makeDir vault).apply {})

/-- A site with the flag and an empty target. -/
def site (disk : Disk) (flag : Bool) : Site Bool := ⟨⟨"target", ∅⟩, {}, disk, flag⟩

theorem at?_disk {place : Place} (h : vault.Inside place) :
    disk.at? place = if place = vault ++ [CacheLock.fileName] then some (.file 0 []) else none := by
  have hlock : vault ++ [CacheLock.fileName] ≠ [] := by decide
  have hvault : place ≠ vault := fun e => Disk.not_inside_self vault (e ▸ h)
  have hroot : place ≠ [] := by
    obtain ⟨name, names, rfl⟩ := h
    nofun
  have hnone : ({} : Disk).at? place = none := if_neg hroot
  unfold disk
  rw [DiskOp.at?_apply_makeFile _ hlock, DiskOp.at?_apply_makeDir _ (by decide), if_neg hvault,
    hnone]
  rfl

theorem empty_site (flag : Bool) : workshop.Empty (.disk cache) (site disk flag) := by
  have hsteps : OsPath.steps cache.root = [.stay, .down (Bytes.ofText "cache")] := by decide
  have hvault : disk.at? vault = some .dir := by decide
  have hway : Disk.Way disk Disk.linkLimit [] (OsPath.steps cache.root) Disk.linkLimit vault :=
    hsteps ▸ .stay rfl (.down rfl (by decide) hvault (.done hvault))
  have hdir : disk.dirAt cache.root = .ok vault := by
    unfold Disk.dirAt Disk.resolve
    rw [hway.walk_eq]
    rfl
  refine ⟨rfl, hdir, ?_⟩
  intro place hplace
  show disk.at? place = none ∨ _ ∧ ∃ serial content, disk.at? place = some (.file serial content)
  rw [at?_disk hplace]
  split
  next heq => exact .inr ⟨heq, 0, [], rfl⟩
  next => exact .inl rfl

/-- The builder behind the cache. -/
def cached : Builder (Site Bool) :=
  builder.cached 1 (DiskCache.cache Site.diskPart cache) Site.directory []

/-- A build of a single builder. -/
def context (b : Builder (Site Bool)) : Context (Site Bool) :=
  (Context.add { config := { parallelism := 1 } } b [] ⟨site {} false, []⟩).1.2

theorem staffed {st : Storage} {b : Builder (Site Bool)} (hb : st.Wraps builder b) :
    workshop.Staffed st [] (context b) :=
  (staffed_new workshop st _).add ⟨builder, makes, hb⟩ (fun _ h => (List.not_mem_nil h).elim) _

/-- The site after a build with the cache. -/
def built (s : Site Bool) : Site Bool := ((context cached).execute id none ⟨s, []⟩).2.world

/-- The flag is set or cleared, and the target is lost. -/
def edited (flag : Bool) (s : Site Bool) : Site Bool :=
  { s with rest := flag, target := ⟨"target", ∅⟩ }

/-- The flag is set, cleared and set again, with builds in between, and the outputs are lost each
time. -/
def later : Site Bool := edited true (built (edited false (built (site disk true))))

/-- The build that follows comes to the same as one without a cache: the builder is reported as run,
and the stamp is that of the flag as it is now. -/
theorem rebuild_eq_clean_flag :
    SameBuild ((context cached).execute id none ⟨later, []⟩)
      ((context builder).execute id none ⟨site {} true, []⟩) ∧
    ∃ report, ((context cached).execute id none ⟨later, []⟩).1.1 = .ok report ∧
      report.executed = [builderId] ∧
      ((context cached).execute id none ⟨later, []⟩).2.world.target.files.get? path =
        some (content (print true)) := by
  have hschedule : ∀ wave : List Nat, (id wave).Perm wave := fun _ => .rfl
  have hcached : workshop.Staffed (.disk cache) [] (context cached) := staffed ⟨1, [], rfl⟩
  have hbuild {s : Site Bool} (h : workshop.Reached (.disk cache) s) :
      workshop.Reached (.disk cache) (built s) := .step h (.build hcached hschedule none ⟨s, []⟩)
  have hedit (flag : Bool) {s : Site Bool} (h : workshop.Reached (.disk cache) s) :
      workshop.Reached (.disk cache) (edited flag s) :=
    .step h (.edit ⟨rfl, fun _ => rfl, fun _ h => h⟩)
  have hlater : workshop.Reached (.disk cache) later :=
    hedit true (hbuild (hedit false (hbuild (.start (empty_site true)))))
  have hempty : workshop.Empty .nothing (⟨site {} true, []⟩ : Traced (Site Bool)).world := trivial
  have hclean : workshop.Staffed .nothing [] (context builder) := staffed rfl
  obtain ⟨hsame, hyields⟩ := rebuild_eq_clean (t := ⟨later, []⟩) hlater hempty rfl hcached hclean
    rfl rfl rfl hschedule hschedule none
  refine ⟨hsame, ?_⟩
  generalize (context cached).execute id none ⟨later, []⟩ = answer at hsame hyields ⊢
  obtain ⟨⟨result, c⟩, t⟩ := answer
  cases result with
  | error e => exact hsame.elim
  | ok report =>
    obtain ⟨halike, -⟩ := hsame
    refine ⟨report, rfl, halike.executed, ?_⟩
    have hget : report.results.get? builderId = some (.ofList [path]) := by
      rw [halike.results]
      rfl
    obtain ⟨product, hproduct, -, hcontent⟩ := (hyields report rfl).made _ _ hget
    cases hproduct
    exact hcontent path ((SortedSet.mem_ofList _ _).2 (List.mem_singleton_self _))

end Stamp

end Rebuild
