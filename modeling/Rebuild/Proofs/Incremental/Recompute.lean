import Rebuild.Proofs.Incremental.Recall
import Rebuild.Proofs.Incremental.History

/-!
# When a cached builder is run

A cached builder is called time and again while its inputs, its target and all else
but the cache may change. The builder inside is run just in those calls whose
fingerprint could be taken and is not that of the last run that succeeded. Every
other call gives what that run gave, whatever has become of the target since.

* `Call`: a call, and the run of the builder inside if there was one.
* `Storage.Suits`: what is asked of the builders.
* `Called`: the sites that calls lead to.
* `Called.follows`: what the next call comes to.
* `DiskCache.Vain.runs`: outputs that are too long for the disk are made in every call.
-/
namespace Rebuild

/-- A run of a builder: how it ended, and what the target held then. -/
structure InnerRun where
  result : Except RunFailure Outputs
  files : SortedMap RelativePath Bytes

/-- What a run of a builder comes to. -/
def InnerRun.of {ρ : Type} (b : Builder (Site ρ)) (t : Traced (Site ρ)) : InnerRun :=
  ⟨(b.run t).1, (b.run t).2.world.target.files⟩

/-- A call of a cached builder: the fingerprint of the inputs, and the run of the builder inside, if
there was one. -/
structure Call where
  fingerprint : Except InputError Fingerprint
  run : Option InnerRun

/-- The run inside, if it succeeded. -/
def Call.success? : Call → Option Success
  | ⟨.ok fp, some ⟨.ok outputs, files⟩⟩ => some ⟨fp, outputs, files⟩
  | _ => none

/-- The last run that succeeded in calls, the latest call first. -/
def lastSuccess? (calls : List Call) : Option Success := calls.findSome? Call.success?

variable {ρ : Type}

/-- What a call comes to after the last success: the builder inside is run if there is a fingerprint
and it is not that of the success. -/
structure Follows (b : Builder (Site ρ)) (last : Option Success) (t : Traced (Site ρ))
    (called : Except RunFailure Outputs × Traced (Site ρ)) (run : Option InnerRun) : Prop where
  run_iff : run.isSome = true ↔ ∃ fp, b.inputs.fingerprint t.world = .ok fp ∧
    ∀ past, last = some past → past.fingerprint.agrees fp = false
  ran : ∀ r, run = some r → called.1 = r.result ∧ ∃ t₁, t₁.world = t.world ∧ r = .of b t₁
  refused : ∀ e, b.inputs.fingerprint t.world = .error e →
    called.1 = .error (.failed (.inputs e))
  reused : ∀ fp, b.inputs.fingerprint t.world = .ok fp → run = none →
    ∃ past, last = some past ∧ called.1 = .ok past.outputs ∧ past.Restored called.2.world

namespace Storage

/-- The cache is open and nothing is stored. -/
def Fresh (vault : Place) : Storage → Site ρ → Prop
  | nothing, _ => True
  | memory, s => s.memory = {}
  | disk c, s => c.registry = .standard ∧ s.disk.dirAt c.root = .ok vault ∧
    ∀ place, vault.Inside place → s.disk.at? place = none ∨
      place = vault ++ [CacheLock.fileName] ∧
        ∃ serial content, s.disk.at? place = some (.file serial content)

/-- From one site to another, nobody lays hands on the cache, or on the way to it. -/
def Spares (vault : Place) : Storage → Site ρ → Site ρ → Prop
  | nothing, _, _ => True
  | memory, s, s' => s'.memory = s.memory
  | disk c, s, s' => Disk.Same vault s.disk s'.disk ∧
    (s.disk.Anchored c.root vault → s'.disk.Anchored c.root vault)

/-- Outputs that the cache can store. -/
def Storable : Storage → BuilderId → Outputs → Prop
  | disk c, id, outputs => c.Storable id outputs
  | _, _, _ => True

/-- The cache holds the last success of a builder. -/
def Holds (vault : Place) (id : BuilderId) : Storage → Option Success → Site ρ → Prop
  | nothing, _, _ => True
  | memory, past, s => MemoryCache.Holds id past s
  | disk c, past, s => c.Holds vault id past s

/-- What is asked of the builder inside: its fingerprints survive the protocol, it keeps a record of
its runs, it lets the cache alone, and when it succeeds, all it returns is in the target and can be
stored. -/
structure Suits (st : Storage) (vault : Place) (record : ρ → List InnerRun)
    (b : Builder (Site ρ)) : Prop where
  portable : ∀ s fp, b.inputs.fingerprint s = .ok fp → fp.IsPortable
  recorded : ∀ t, record (b.run t).2.world.rest = .of b t :: record t.world.rest
  spares : ∀ t, st.Spares vault t.world (b.run t).2.world
  present : ∀ t outputs, (b.run t).1 = .ok outputs →
    ∀ p ∈ outputs, (b.run t).2.world.target.holds p = true
  storable : ∀ t outputs, (b.run t).1 = .ok outputs → st.Storable b.id outputs

variable {st : Storage} {vault : Place} {id : BuilderId} {past : Option Success} {s s' : Site ρ}

theorem remembers {cache : Cache (Site ρ)} (h : st.cache? = some cache) (vault : Place)
    (id : BuilderId) : cache.Remembers id (st.Holds vault id) (st.Storable id) := by
  cases st with
  | nothing => cases h
  | memory =>
    rw [← Option.some.inj h]
    exact MemoryCache.remembers_memory id
  | disk c =>
    rw [← Option.some.inj h]
    exact DiskCache.remembers_disk c vault id

theorem Fresh.holds (h : st.Fresh vault s) (id : BuilderId) : st.Holds vault id none s := by
  cases st with
  | nothing => trivial
  | memory =>
    have h : s.memory = {} := h
    show s.memory.entries.get? id = none
    rw [h]
    rfl
  | disk c =>
    obtain ⟨hregistry, hdir, hflat⟩ := h
    have hgone {name : Bytes} (hname : name ≠ CacheLock.fileName) :
        Disk.Gone (vault ++ [name]) s.disk := by
      intro rest
      rw [List.append_assoc]
      rcases hflat _ (Disk.inside_append vault (List.cons_ne_nil _ _)) with hnone | ⟨heq, -⟩
      · exact hnone
      · exact absurd (List.cons.inj (List.append_cancel_left heq)).1 hname
    refine ⟨hregistry, CacheLock.footing_of_flat hdir hflat, hgone (by decide), hgone ?_⟩
    intro e
    have hdot : 0x2E ∈ CacheLock.fileName := by decide
    exact OsPath.not_mem_shortHash (by decide) (e ▸ hdot)

theorem Holds.of_spares (h : st.Holds vault id past s) (hspares : st.Spares vault s s') :
    st.Holds vault id past s' := by
  cases st with
  | nothing => trivial
  | memory =>
    have hspares : s'.memory = s.memory := hspares
    show MemoryCache.Holds id past s'
    unfold MemoryCache.Holds
    rw [hspares]
    exact h
  | disk c =>
    obtain ⟨hsame, hway⟩ := hspares
    obtain ⟨hregistry, hfooting, hstaging, hentry⟩ := h
    refine ⟨hregistry, hfooting.of_same (hway hfooting.anchored) hsame, fun rest => ?_,
      hentry.of_same (hsame.below _)⟩
    rw [hsame.below]
    exact hstaging rest

end Storage

/-! ## One call -/

section Calling

variable {st : Storage} {vault : Place} {record : ρ → List InnerRun} {b : Builder (Site ρ)}
  {cache : Cache (Site ρ)} {past : Option Success} {t t₁ : Traced (Site ρ)}

theorem runCached_of_refused {e : InputError} (h : b.inputs.fingerprint t.world = .error e) :
    (b.runCached cache Site.directory t).1 = .error (.failed (.inputs e)) ∧
      (b.runCached cache Site.directory t).2.world = t.world := by
  have hget : (get : Action (Site ρ) _) t = (t, t) := rfl
  have hsurvey : (b.inputs.survey t.world).2 = .error e := h
  unfold Builder.runCached
  simp only [Action.bind_apply, hget, hsurvey]
  exact ⟨rfl, rfl⟩

/-- What a call comes to: its run inside is on record, and the cache holds the last success. -/
structure Comes (st : Storage) (vault : Place) (record : ρ → List InnerRun) (b : Builder (Site ρ))
    (past : Option Success) (t : Traced (Site ρ))
    (called : Except RunFailure Outputs × Traced (Site ρ)) (run : Option InnerRun) : Prop where
  recorded : record called.2.world.rest = run.toList ++ record t.world.rest
  follows : Follows b past t called run
  holds : st.Holds vault b.id (Call.success? ⟨b.inputs.fingerprint t.world, run⟩ <|> past)
    called.2.world

theorem comes_of_refused {e : InputError} (h : st.Holds vault b.id past t.world)
    (hprint : b.inputs.fingerprint t.world = .error e) :
    Comes st vault record b past t (b.runCached cache Site.directory t) none := by
  obtain ⟨hresult, hworld⟩ := @runCached_of_refused _ b cache t e hprint
  refine ⟨by rw [hworld]; rfl, ⟨?_, nofun, ?_, ?_⟩, ?_⟩
  · exact ⟨nofun, fun ⟨_, hfp, _⟩ => nomatch hprint.symm.trans hfp⟩
  · intro e' he
    cases hprint.symm.trans he
    exact hresult
  · intro fp hfp
    cases hprint.symm.trans hfp
  · rw [hworld, hprint]
    exact h

theorem comes_of_hit {success : Success} (hcache : st.cache? = some cache)
    (h : st.Holds vault b.id (some success) t.world)
    (hprint : b.inputs.fingerprint t.world = .ok success.fingerprint) :
    Comes st vault record b (some success) t (b.runCached cache Site.directory t) none := by
  have hself := Fingerprint.agrees_self _ ((Storage.remembers hcache vault b.id).portable h).builtIn
  obtain ⟨hreuse, hrestored, hholds, hrest⟩ := (Storage.remembers hcache vault b.id).hit
    (t := (Action.tellAll (b.inputs.survey t.world).1 t).2) h
  rw [Builder.runCached_of_reused hprint (Prod.ext hreuse rfl)]
  refine ⟨by rw [hrest]; rfl, ⟨?_, nofun, ?_, ?_⟩, ?_⟩
  · refine ⟨nofun, fun ⟨fp, hfp, hother⟩ => ?_⟩
    cases hprint.symm.trans hfp
    cases hself.symm.trans (hother success rfl)
  · intro e he
    cases hprint.symm.trans he
  · intro fp _ _
    exact ⟨success, rfl, rfl, hrestored⟩
  · rw [hprint]
    exact hholds

theorem comes_of_miss {fp : Fingerprint} (hcache : st.cache? = some cache)
    (hb : st.Suits vault record b) (h : st.Holds vault b.id past t.world)
    (hprint : b.inputs.fingerprint t.world = .ok fp)
    (hne : ∀ success, past = some success → success.fingerprint ≠ fp) :
    ∃ run, Comes st vault record b past t (b.runCached cache Site.directory t) (some run) := by
  have hremembers := Storage.remembers hcache vault b.id
  have hportable := hb.portable t.world fp hprint
  have hother : ∀ success, past = some success → success.fingerprint.agrees fp = false := by
    intro success hsuccess
    subst hsuccess
    refine Bool.eq_false_iff.2 fun hagrees => hne success rfl ?_
    exact (Fingerprint.agrees_iff (hremembers.portable h).builtIn).1 hagrees
  obtain ⟨hreuse, hworld⟩ := hremembers.miss
    (t := (Action.tellAll (b.inputs.survey t.world).1 t).2) h hportable hne
  generalize hanswer : cache.reuse b.id fp Site.directory
    (Action.tellAll (b.inputs.survey t.world).1 t).2 = answer at hreuse hworld
  obtain ⟨found, t₁⟩ := answer
  cases hreuse
  rw [Builder.runCached_of_missed hprint hanswer]
  have hworld : t₁.world = t.world := hworld
  have hrecorded := hb.recorded t₁
  have hspares := hb.spares t₁
  have hpresent := hb.present t₁
  have hstorable := hb.storable t₁
  rw [hworld] at hrecorded hspares
  refine ⟨.of b t₁, ?_⟩
  have hfollows {called : Except RunFailure Outputs × Traced (Site ρ)}
      (hcalled : called.1 = (b.run t₁).1) : Follows b past t called (some (.of b t₁)) := by
    refine ⟨⟨fun _ => ⟨fp, hprint, hother⟩, fun _ => rfl⟩, ?_, ?_, nofun⟩
    · intro r heq
      cases heq
      exact ⟨hcalled, t₁, hworld, rfl⟩
    · intro e he
      cases hprint.symm.trans he
  unfold InnerRun.of at hrecorded hfollows ⊢
  generalize b.run t₁ = ran at hrecorded hspares hpresent hstorable hfollows ⊢
  obtain ⟨result, t₂⟩ := ran
  have hheld : st.Holds vault b.id past t₂.world := h.of_spares hspares
  cases result with
  | error failure =>
    refine ⟨hrecorded, hfollows rfl, ?_⟩
    rw [hprint]
    exact hheld
  | ok outputs =>
    obtain ⟨hholds, hrest⟩ := hremembers.keep hheld hportable (hstorable outputs rfl)
      (hpresent outputs rfl)
    refine ⟨by rw [hrest]; exact hrecorded, hfollows rfl, ?_⟩
    rw [hprint]
    exact hholds

theorem comes (hcache : st.cache? = some cache) (hb : st.Suits vault record b)
    (h : st.Holds vault b.id past t.world) :
    ∃ run, Comes st vault record b past t (b.runCached cache Site.directory t) run := by
  cases hprint : b.inputs.fingerprint t.world with
  | error e => exact ⟨none, comes_of_refused h hprint⟩
  | ok fp =>
    by_cases hlast : ∃ success, past = some success ∧ success.fingerprint = fp
    · obtain ⟨success, rfl, rfl⟩ := hlast
      exact ⟨none, comes_of_hit hcache h hprint⟩
    · obtain ⟨run, hcomes⟩ := comes_of_miss hcache hb h hprint fun success hsuccess heq =>
        hlast ⟨success, hsuccess, heq⟩
      exact ⟨some run, hcomes⟩

end Calling

/-! ## Any number of calls -/

/-- The sites that calls of cached builders with one identity lead to, the latest call first.
Between calls everything but the cache may change, and so may the builder. -/
inductive Called (st : Storage) (vault : Place) (record : ρ → List InnerRun) (id : BuilderId) :
    List Call → Site ρ → Prop where
  | start {s} (fresh : st.Fresh vault s) : Called st vault record id [] s
  | edit {calls s s'} (before : Called st vault record id calls s)
      (spares : st.Spares vault s s') : Called st vault record id calls s'
  | call {calls cache b run t t'} (before : Called st vault record id calls t.world)
      (opened : st.cache? = some cache) (identity : b.id = id) (suits : st.Suits vault record b)
      (called : (Builder.runCached b cache Site.directory t).2 = t')
      (recorded : record t'.world.rest = run.toList ++ record t.world.rest) :
      Called st vault record id (⟨b.inputs.fingerprint t.world, run⟩ :: calls) t'.world

section Calls

variable {st : Storage} {vault : Place} {record : ρ → List InnerRun} {b : Builder (Site ρ)}
  {id : BuilderId} {cache : Cache (Site ρ)} {calls : List Call} {s : Site ρ} {t : Traced (Site ρ)}

theorem Called.holds (h : Called st vault record id calls s) :
    st.Holds vault id (lastSuccess? calls) s := by
  induction h with
  | start fresh => exact fresh.holds id
  | edit before spares ih => exact ih.of_spares spares
  | @call calls cache b run t t' before opened identity suits called recorded ih =>
    subst identity called
    obtain ⟨run', hcomes⟩ := comes opened suits ih
    have hrun := List.append_cancel_right (hcomes.recorded.symm.trans recorded)
    have hrun : run' = run := by
      rw [← Option.head?_toList (o := run'), hrun, Option.head?_toList]
    subst hrun
    have hholds := hcomes.holds
    unfold lastSuccess? at hholds ⊢
    rw [List.findSome?_cons]
    generalize Call.success? ⟨b.inputs.fingerprint t.world, run'⟩ = success at hholds ⊢
    cases success <;> exact hholds

/-- The builder inside is run in a call just if the fingerprint could be taken and does not agree
with that of the last run that succeeded. A call without a run gives the outputs of that run, and
the target holds what that run left at them. -/
theorem Called.follows (h : Called st vault record id calls t.world)
    (hcache : st.cache? = some cache) (hid : b.id = id) (hb : st.Suits vault record b) :
    ∃ run, record (b.runCached cache Site.directory t).2.world.rest =
        run.toList ++ record t.world.rest ∧
      Follows b (lastSuccess? calls) t (b.runCached cache Site.directory t) run := by
  subst hid
  obtain ⟨run, hcomes⟩ := comes hcache hb h.holds
  exact ⟨run, hcomes.recorded, hcomes.follows⟩

end Calls

/-! ## Outputs that are too long for the disk -/

namespace DiskCache

variable {c : DiskCache} {vault : Place} {id : BuilderId} {fp : Fingerprint} {p : RelativePath}
  {s : Site ρ} {t : Traced (Site ρ)}

/-- A path whose segments alone are as long as no path may be. -/
def TooLong (p : RelativePath) : Prop :=
  Disk.pathLimit ≤ ((p.segments.map Bytes.ofText).map List.length).sum

/-- What is stored of a builder, if anything, has a path that is too long. -/
structure Vain (c : DiskCache) (vault : Place) (id : BuilderId) (s : Site ρ) : Prop where
  footing : s.disk.Footing c.root vault
  index : ∀ serial content text index,
    s.disk.at? (vault ++ [entryName id] ++ [indexName]) = some (.file serial content) →
    content.text? = some text → EntryIndex.ofText? text = some index →
    ∃ p ∈ index.files, TooLong p

theorem TooLong.not_read {d : Disk} {content : Bytes} (h : TooLong p) :
    (filesIn (c.entryDir id)).read p d ≠ .ok content := by
  intro hread
  have hread : d.read (p.under (filesIn (c.entryDir id)).root) = .ok content :=
    ok_of_mapError hread
  rw [under_filesIn] at hread
  have hlength := Disk.length_lt_of_read hread
  have hsum := OsPath.sum_le_length_below
    (List.forall_mem_cons.2 ⟨isName_entryName id, isName_filePlace p⟩) c.root
  unfold filePlace at hsum hlength
  rw [List.map_cons, List.map_cons, List.sum_cons, List.sum_cons] at hsum
  unfold TooLong at h
  omega

theorem restore_world : ∃ files,
    ((cache Site.diskPart c).restore id Site.directory t).2.world =
      { t.world with target := { t.world.target with files } } := by
  have hpart : Site.diskPart.get t.world = t.world.disk := rfl
  unfold cache
  simp only [Action.bind_apply, Action.ask_apply, hpart]
  generalize c.readIndex id t.world.disk = read
  cases read with
  | error e => exact ⟨_, rfl⟩
  | ok index =>
    have hread : ∀ p ∈ index.files.toList, ∀ content,
        (filesIn (c.entryDir id)).read p t.world.disk = .ok content →
          ((filesIn (c.entryDir id)).read p t.world.disk).toOption = some content := by
      intro p _ content hcontent
      rw [hcontent]
      rfl
    obtain ⟨⟨files, hsite⟩, -⟩ := @Workshop.copied_copyOut ρ (filesIn (c.entryDir id)) id
      ⟨index.files, fun p => ((filesIn (c.entryDir id)).read p t.world.disk).toOption⟩ _ _ hread
    simp only [Action.bind_apply, Action.change_apply]
    generalize copyOut Site.diskPart (filesIn (c.entryDir id)) id Site.directory
      index.files.toList t.world = copied at hsite ⊢
    obtain ⟨result, s'⟩ := copied
    cases result <;> exact ⟨files, hsite⟩

theorem reuse_world : ∃ files,
    ((cache Site.diskPart c).reuse id fp Site.directory t).2.world =
      { t.world with target := { t.world.target with files } } := by
  obtain ⟨htold, -⟩ := Workshop.contains_apply c id fp t
  unfold Cache.reuse
  rw [Action.bind_apply]
  generalize (cache Site.diskPart c).contains id fp t = answer at htold
  obtain ⟨found, t₁⟩ := answer
  obtain ⟨events, rfl⟩ := htold
  cases found with
  | false => exact ⟨_, rfl⟩
  | true =>
    obtain ⟨files, hsite⟩ := @restore_world ρ c id { t with log := events ++ t.log }
    simp only [↓reduceIte, Action.bind_apply]
    generalize (cache Site.diskPart c).restore id Site.directory
      { t with log := events ++ t.log } = restored at hsite ⊢
    obtain ⟨result, t₂⟩ := restored
    cases result <;> exact ⟨files, hsite⟩

theorem Vain.reuse_eq (h : c.Vain vault id t.world) :
    ((cache Site.diskPart c).reuse id fp Site.directory t).1 = none := by
  rw [Option.eq_none_iff_forall_ne_some]
  intro outputs hreuse
  obtain ⟨-, hrestore⟩ := Cache.of_reuse hreuse
  obtain ⟨index, hindex, rfl, hread⟩ := of_restore hrestore
  obtain ⟨⟨events, htold⟩, -⟩ := Workshop.contains_apply c id fp t
  rw [htold] at hindex hread
  obtain ⟨serial, content, text, hfile, htext, hofText⟩ := at?_of_readIndex h.footing hindex
  obtain ⟨p, hp, hlong⟩ := h.index serial content text index hfile htext hofText
  obtain ⟨content, hcontent⟩ := hread p hp
  exact hlong.not_read hcontent

theorem Vain.keep {outputs : Outputs} (h : c.Vain vault id t.world)
    (hlong : ∃ p ∈ outputs, TooLong p) :
    c.Vain vault id ((cache Site.diskPart c).keep id fp outputs Site.directory t).2.world := by
  rw [Cache.keep_world, (DiskCache.store_eq _ _ _ _ _ _).2]
  have hstored := (meets_store h.footing id fp outputs (Site.directory.read · t.world)).run
  refine ⟨hstored.footing, ?_⟩
  intro serial content text index hfile htext hindex
  rcases hstored.entries (entryName id) (OsPath.not_mem_shortHash (by decide)) with
    hsame | hgone | ⟨-, encoded, -, hfiled⟩
  · exact h.index serial content text index ((hsame _).symm.trans hfile) htext hindex
  · cases (hgone _).symm.trans hfile
  · obtain ⟨serial', hfile'⟩ := hfiled.index
    cases hfile'.symm.trans hfile
    rw [Bytes.text?_ofText] at htext
    cases htext
    rw [EntryIndex.ofText?_text (show EntryIndex.currentVersion < Nat.pow 2 32 by decide)]
      at hindex
    cases hindex
    exact hlong

/-- A builder whose outputs are too long is run in every call, whatever its fingerprints are. -/
theorem Vain.runs {b : Builder (Site ρ)} {record : ρ → List InnerRun}
    (h : c.Vain vault b.id t.world) (hprint : b.inputs.fingerprint t.world = .ok fp)
    (hrecorded : ∀ t, record (b.run t).2.world.rest = .of b t :: record t.world.rest)
    (hspares : ∀ t : Traced (Site ρ), (Storage.disk c).Spares vault t.world (b.run t).2.world)
    (hlong : ∀ t outputs, (b.run t).1 = .ok outputs → ∃ p ∈ outputs, TooLong p) :
    let called := b.runCached (cache Site.diskPart c) Site.directory t
    ∃ t₁, called.1 = (b.run t₁).1 ∧
      called.2.world.target = (b.run t₁).2.world.target ∧
      record called.2.world.rest = .of b t₁ :: record t.world.rest ∧
      c.Vain vault b.id called.2.world := by
  intro called
  have hreuse := @Vain.reuse_eq ρ c vault b.id fp
    (Action.tellAll (b.inputs.survey t.world).1 t).2 h
  obtain ⟨files, hsite⟩ := @reuse_world ρ c b.id fp
    (Action.tellAll (b.inputs.survey t.world).1 t).2
  generalize hanswer : (cache Site.diskPart c).reuse b.id fp Site.directory
    (Action.tellAll (b.inputs.survey t.world).1 t).2 = answer at hreuse hsite
  obtain ⟨found, t₁⟩ := answer
  cases hreuse
  have hcalled := Builder.runCached_of_missed hprint hanswer
  refine ⟨t₁, ?_⟩
  have hsite : t₁.world = { t.world with target := { t.world.target with files } } := hsite
  have hrest : t₁.world.rest = t.world.rest := by rw [hsite]
  have hdisk : t₁.world.disk = t.world.disk := by rw [hsite]
  obtain ⟨hsame, hway⟩ := hspares t₁
  have hrecorded := hrecorded t₁
  have hlong := hlong t₁
  have hvain : c.Vain vault b.id (b.run t₁).2.world := by
    rw [hdisk] at hsame hway
    refine ⟨h.footing.of_same (hway h.footing.anchored) hsame, ?_⟩
    intro serial content text index hfile
    rw [List.append_assoc, hsame, ← List.append_assoc] at hfile
    exact h.index serial content text index hfile
  rw [hrest] at hrecorded
  subst called
  rw [hcalled]
  unfold InnerRun.of at hrecorded ⊢
  generalize b.run t₁ = ran at hrecorded hlong hvain ⊢
  obtain ⟨result, t₂⟩ := ran
  cases result with
  | error failure => exact ⟨rfl, rfl, hrecorded, hvain⟩
  | ok outputs =>
    have hkept : ((cache Site.diskPart c).keep b.id fp outputs Site.directory t₂).2.world =
        { t₂.world with disk := ((c.store b.id fp outputs
          (Site.directory.read · t₂.world)).run t₂.world.disk).2 } := by
      rw [Cache.keep_world, (DiskCache.store_eq _ _ _ _ _ _).2]
    refine ⟨rfl, ?_, ?_, hvain.keep (hlong outputs rfl)⟩
    · dsimp only
      rw [hkept]
    · dsimp only
      rw [hkept]
      exact hrecorded

end DiskCache

/-! ## A builder that counts its runs -/

namespace Tally

/-- Writes an empty file and keeps a record of its runs. -/
def builder (p : RelativePath) : Builder (Site (List InnerRun)) where
  id := Stamp.builderId
  serial := 0
  inputs := .nothing
  run := Action.change fun s =>
    let target := s.target.write p []
    (.ok (.ofList [p]), { s with target, rest := ⟨.ok (.ofList [p]), target.files⟩ :: s.rest })

/-- A site with an empty target and the cache on its disk, which was just opened. -/
def site : Site (List InnerRun) := ⟨⟨"target", ∅⟩, {}, Stamp.disk, []⟩

/-- A call of the builder behind the cache. -/
def call (p : RelativePath) (s : Site (List InnerRun)) :
    Except RunFailure Outputs × Traced (Site (List InnerRun)) :=
  (builder p).runCached (DiskCache.cache Site.diskPart Stamp.cache) Site.directory ⟨s, []⟩

theorem fresh_site : (Storage.disk Stamp.cache).Fresh Stamp.vault site :=
  Stamp.empty_site true

theorem isPortable_empty : Fingerprint.empty.IsPortable := ⟨rfl, by decide, by decide⟩

theorem suits {p : RelativePath}
    (h : Stamp.cache.Storable Stamp.builderId (.ofList [p])) :
    (Storage.disk Stamp.cache).Suits Stamp.vault id (builder p) := by
  refine ⟨?_, fun _ => rfl, fun _ => ⟨fun _ => rfl, fun h => h⟩, ?_, ?_⟩
  · intro s fp hfp
    cases hfp
    exact isPortable_empty
  · intro t outputs hrun q hq
    cases hrun
    rw [SortedSet.mem_ofList, List.mem_singleton] at hq
    rw [MemoryDirectory.holds_iff, hq]
    exact ⟨[], MemoryDirectory.read_write_self _ _ _⟩
  · intro t outputs hrun
    cases hrun
    exact h

theorem storable_stamp : Stamp.cache.Storable Stamp.builderId (.ofList [Stamp.path]) := by
  have hmem {p : RelativePath} (hp : p ∈ SortedSet.ofList [Stamp.path]) : p = Stamp.path := by
    rwa [SortedSet.mem_ofList, List.mem_singleton] at hp
  refine DiskCache.storable_of_room ?_ ?_ ?_ (by decide) ?_
  · intro p hp
    rw [hmem hp]
    decide
  · intro p hp
    rw [hmem hp]
    decide
  · intro p hp q hq _
    exact (hmem hp).trans (hmem hq).symm
  · intro p hp
    rw [hmem hp]
    decide

/-- The stamp is written once: when it is lost, the next call brings it back without a run. -/
theorem follows_stamp_lost :
    let first := call Stamp.path site
    let second := call Stamp.path { first.2.world with target := ⟨"target", ∅⟩ }
    first.1 = .ok (.ofList [Stamp.path]) ∧ first.2.world.rest.length = 1 ∧
      second.1 = .ok (.ofList [Stamp.path]) ∧ second.2.world.rest = first.2.world.rest ∧
      second.2.world.target.files.get? Stamp.path = some [] := by
  intro first second
  have hsuits := suits storable_stamp
  have hstart : Called (.disk Stamp.cache) Stamp.vault id Stamp.builderId []
      (⟨site, []⟩ : Traced (Site (List InnerRun))).world := .start fresh_site
  obtain ⟨run, hrecord, hfirst⟩ := hstart.follows rfl rfl hsuits
  cases run with
  | none => exact nomatch hfirst.run_iff.2 ⟨.empty, rfl, nofun⟩
  | some run =>
    obtain ⟨hresult, t₁, ht₁, rfl⟩ := hfirst.ran run rfl
    have hcalled := Called.call hstart rfl rfl hsuits rfl hrecord
    have hlost : Called (.disk Stamp.cache) Stamp.vault id Stamp.builderId _
        (⟨{ first.2.world with target := ⟨"target", ∅⟩ }, []⟩ :
          Traced (Site (List InnerRun))).world := .edit hcalled ⟨fun _ => rfl, fun h => h⟩
    obtain ⟨run', hrecord', hsecond⟩ := hlost.follows rfl rfl hsuits
    have hlast : lastSuccess? [⟨(builder Stamp.path).inputs.fingerprint site,
        some (.of (builder Stamp.path) t₁)⟩] = some ⟨.empty, .ofList [Stamp.path],
          (t₁.world.target.write Stamp.path []).files⟩ := rfl
    cases run' with
    | some run' =>
      obtain ⟨fp, hfp, hother⟩ := hsecond.run_iff.1 rfl
      cases hfp
      cases hother _ hlast
    | none =>
      obtain ⟨past, hpast, hreused, hrestored⟩ := hsecond.reused .empty rfl rfl
      cases hlast.symm.trans hpast
      obtain ⟨content, hcontent, htarget⟩ := hrestored Stamp.path
        ((SortedSet.mem_ofList _ _).2 (List.mem_singleton_self _))
      cases (SortedMap.get?_insert_self _ _ _).symm.trans hcontent
      exact ⟨hresult, congrArg List.length hrecord, hreused, hrecord', htarget⟩

/-- Two hundred and fifty letters. -/
def longSegment : String := String.ofList (List.replicate 250 'a')

theorem toList_longSegment : longSegment.toList = List.replicate 250 'a' := String.toList_ofList

theorem isSegment_longSegment : IsSegment longSegment := by
  have hchar {c : Char} (hc : c ≠ 'a') : c ∉ longSegment.toList := by
    rw [toList_longSegment]
    exact fun h => hc (List.eq_of_mem_replicate h)
  have hlength {s : String} (hs : s.toList.length ≠ 250) : longSegment ≠ s := by
    intro e
    rw [← e, toList_longSegment, List.length_replicate] at hs
    exact hs rfl
  exact ⟨hlength (by decide), hlength (by decide), hlength (by decide), hchar (by decide),
    hchar (by decide)⟩

theorem isDriveName_eq_false {s : String} (h : 2 < s.toList.length) : isDriveName s = false := by
  unfold isDriveName
  split
  next c heq =>
    rw [heq] at h
    exact absurd h (Nat.lt_irrefl 2)
  next => rfl

theorem ofText_longSegment :
    (Bytes.ofText longSegment).length = 250 ∧ (0 : UInt8) ∉ Bytes.ofText longSegment := by
  have hbytes : Bytes.ofText longSegment = (List.replicate 250 'a').flatMap String.utf8EncodeChar :=
    by rw [Bytes.ofText_eq, toList_longSegment]
  refine ⟨?_, fun hzero => ?_⟩
  · rw [hbytes, List.length_flatMap, List.map_replicate, List.sum_replicate_nat]
    rfl
  · obtain ⟨c, hc, hnat⟩ := Bytes.mem_ofText hzero (by decide)
    rw [toList_longSegment] at hc
    rw [List.eq_of_mem_replicate hc] at hnat
    exact absurd hnat (by decide)

/-- A path of eighteen such segments. -/
def deep : RelativePath where
  segments := List.replicate 18 longSegment
  nonempty := by simp
  plain s hs := List.eq_of_mem_replicate hs ▸ isSegment_longSegment
  noDrive s hs := by
    rw [List.eq_of_mem_replicate (List.mem_of_mem_head? hs)]
    refine isDriveName_eq_false ?_
    rw [toList_longSegment, List.length_replicate]
    decide

theorem tooLong_deep : DiskCache.TooLong deep := by
  have hlengths : (deep.segments.map Bytes.ofText).map List.length = List.replicate 18 250 := by
    show ((List.replicate 18 longSegment).map Bytes.ofText).map List.length = _
    rw [List.map_replicate, List.map_replicate, ofText_longSegment.1]
  unfold DiskCache.TooLong
  rw [hlengths]
  decide

theorem call_deep {s : Site (List InnerRun)}
    (h : Stamp.cache.Vain Stamp.vault Stamp.builderId s) :
    (call deep s).1 = .ok (.ofList [deep]) ∧ (call deep s).2.world.target.holds deep = true ∧
      (call deep s).2.world.rest.length = s.rest.length + 1 ∧
      Stamp.cache.Vain Stamp.vault Stamp.builderId (call deep s).2.world := by
  have hlong : ∀ t outputs, ((builder deep).run t).1 = .ok outputs →
      ∃ p ∈ outputs, DiskCache.TooLong p := by
    intro t outputs hrun
    cases hrun
    exact ⟨deep, (SortedSet.mem_ofList _ _).2 (List.mem_singleton_self _), tooLong_deep⟩
  obtain ⟨t₁, hresult, htarget, hrecord, hvain⟩ :=
    @DiskCache.Vain.runs _ Stamp.cache Stamp.vault .empty ⟨s, []⟩ (builder deep) id h rfl
      (fun _ => rfl) (fun _ => ⟨fun _ => rfl, fun h => h⟩) hlong
  refine ⟨hresult, ?_, congrArg List.length hrecord, hvain⟩
  unfold call
  rw [htarget, MemoryDirectory.holds_iff]
  exact ⟨[], MemoryDirectory.read_write_self _ _ _⟩

/-- The path is written twice: what the first call left cannot be stored, so that the second call
has it written again. -/
theorem deep_run_twice :
    let first := call deep site
    let second := call deep first.2.world
    (Storage.disk Stamp.cache).Fresh Stamp.vault site ∧
      (∀ s ∈ deep.segments, (Bytes.ofText s).length = 250 ∧ (0 : UInt8) ∉ Bytes.ofText s) ∧
      (∀ s, (builder deep).inputs.fingerprint s = .ok .empty) ∧
      first.1 = .ok (.ofList [deep]) ∧ first.2.world.target.holds deep = true ∧
      first.2.world.rest.length = 1 ∧
      second.1 = .ok (.ofList [deep]) ∧ second.2.world.rest.length = 2 := by
  intro first second
  have hvain : Stamp.cache.Vain Stamp.vault Stamp.builderId site := by
    obtain ⟨-, hfooting, -, hgone⟩ := fresh_site.holds Stamp.builderId
    exact ⟨hfooting, fun _ _ _ _ hfile => nomatch (hgone _).symm.trans hfile⟩
  obtain ⟨hfirst, hholds, hcount, hvain⟩ := call_deep hvain
  obtain ⟨hsecond, -, hcount', -⟩ := call_deep hvain
  refine ⟨fresh_site, ?_, fun _ => rfl, hfirst, hholds, hcount, hsecond, ?_⟩
  · intro s hs
    rw [List.eq_of_mem_replicate hs]
    exact ofText_longSegment
  · rw [hcount', hcount]
    rfl

end Tally

end Rebuild
