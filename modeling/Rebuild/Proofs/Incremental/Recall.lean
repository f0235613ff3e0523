import Rebuild.Proofs.Cache.Succeeding
import Rebuild.Proofs.Incremental.InMemory
import Rebuild.Proofs.Incremental.OnDisk

/-!
# What a cache remembers of a builder

If all fingerprints of a builder survive the protocol and all its outputs can be
stored, a cache holds just the last run that succeeded: asked with the fingerprint
of that run it hands out what the run left, and asked with another one it has
nothing.

* `Success`: a run that succeeded.
* `Fingerprint.IsPortable`: fingerprints that survive the protocol.
* `Cache.Remembers`: a cache that holds the last success.
* `remembers_memory`, `remembers_disk`: both caches do.
-/
namespace Rebuild

/-- A run that succeeded: the fingerprint of the inputs, the outputs, and what the target held when
it ended. -/
structure Success where
  fingerprint : Fingerprint
  outputs : Outputs
  files : SortedMap RelativePath Bytes

/-- What the run left at a path. -/
def Success.read (past : Success) (p : RelativePath) : Except FsError Bytes :=
  MemoryDirectory.read ⟨"", past.files⟩ p

theorem Success.read_eq_ok {past : Success} {p : RelativePath} {content : Bytes} :
    past.read p = .ok content ↔ past.files.get? p = some content := by
  unfold read MemoryDirectory.read
  cases past.files.get? p <;> simp

/-- A fingerprint of built-in kinds that can be written and read back. -/
structure Fingerprint.IsPortable (fp : Fingerprint) : Prop where
  builtIn : fp.isBuiltIn = true
  height : fp.height ≤ 64
  payload : fp.body.length ≤ 64 * Nat.pow 2 20

theorem Fingerprint.IsPortable.encode {fp : Fingerprint} (h : fp.IsPortable) :
    ∃ encoded, fp.encode = .ok encoded ∧ Registry.standard.decode encoded = .ok fp := by
  obtain ⟨hencode, hdecode⟩ := decode_encode_limits fp h.builtIn
  have hlt : 64 * Nat.pow 2 20 < Nat.pow 2 32 := by decide
  obtain ⟨encoded, hencoded⟩ := hencode.2 (Nat.lt_of_le_of_lt h.payload hlt)
  obtain ⟨fp', hdecoded, rfl, -⟩ := (hdecode encoded hencoded).2.2.2 h.payload h.height
  exact ⟨encoded, hencoded, hdecoded⟩

variable {ρ : Type}

/-- The target holds what a run left at its outputs. -/
def Success.Restored (past : Success) (s : Site ρ) : Prop :=
  ∀ p ∈ past.outputs, ∃ content,
    past.files.get? p = some content ∧ s.target.files.get? p = some content

/-- A cache holds the last success of a builder, if there was one. -/
structure Cache.Remembers (cache : Cache (Site ρ)) (id : BuilderId)
    (Holds : Option Success → Site ρ → Prop) (Fits : Outputs → Prop) : Prop where
  portable : ∀ {past s}, Holds (some past) s → past.fingerprint.IsPortable
  /-- Nothing is handed out for another fingerprint, and nothing changes. -/
  miss : ∀ {past fp t}, Holds past t.world → fp.IsPortable →
    (∀ success, past = some success → success.fingerprint ≠ fp) →
    (cache.reuse id fp Site.directory t).1 = none ∧
      (cache.reuse id fp Site.directory t).2.world = t.world
  /-- What the last success left is handed out for its fingerprint. -/
  hit : ∀ {past t}, Holds (some past) t.world →
    (cache.reuse id past.fingerprint Site.directory t).1 = some past.outputs ∧
      past.Restored (cache.reuse id past.fingerprint Site.directory t).2.world ∧
      Holds (some past) (cache.reuse id past.fingerprint Site.directory t).2.world ∧
      (cache.reuse id past.fingerprint Site.directory t).2.world.rest = t.world.rest
  keep : ∀ {past fp outputs t}, Holds past t.world → fp.IsPortable → Fits outputs →
    (∀ p ∈ outputs, t.world.target.holds p = true) →
    Holds (some ⟨fp, outputs, t.world.target.files⟩)
        (cache.keep id fp outputs Site.directory t).2.world ∧
      (cache.keep id fp outputs Site.directory t).2.world.rest = t.world.rest

namespace Cache

variable {σ : Type} {cache : Cache σ} {target : Directory σ} {id : BuilderId} {fp : Fingerprint}
  {t t₁ : Traced σ}

theorem reuse_of_not_contains (h : cache.contains id fp t = (false, t₁)) :
    (cache.reuse id fp target t).1 = none ∧
      (cache.reuse id fp target t).2.world = t₁.world := by
  unfold reuse
  simp only [Action.bind_apply, h]
  exact ⟨rfl, rfl⟩

theorem reuse_of_restored {outputs : Outputs} (h : cache.contains id fp t = (true, t₁))
    (hrestore : (cache.restore id target t₁).1 = .ok outputs) :
    (cache.reuse id fp target t).1 = some outputs ∧
      (cache.reuse id fp target t).2.world =
        (cache.restore id target t₁).2.world := by
  unfold reuse
  simp only [Action.bind_apply, h, ↓reduceIte]
  generalize cache.restore id target t₁ = restored at hrestore ⊢
  obtain ⟨result, t₂⟩ := restored
  cases hrestore
  exact ⟨rfl, rfl⟩

theorem of_reuse {outputs : Outputs}
    (h : (cache.reuse id fp target t).1 = some outputs) :
    (cache.contains id fp t).1 = true ∧
      (cache.restore id target (cache.contains id fp t).2).1 = .ok outputs := by
  unfold reuse at h
  rw [Action.bind_apply] at h
  generalize cache.contains id fp t = answer at h ⊢
  obtain ⟨found, t₁⟩ := answer
  cases found with
  | false => cases h
  | true =>
    simp only [↓reduceIte, Action.bind_apply] at h
    generalize cache.restore id target t₁ = restored at h ⊢
    obtain ⟨result, t₂⟩ := restored
    cases result with
    | error e => cases h
    | ok => cases h; exact ⟨rfl, rfl⟩

theorem keep_world (outputs : Outputs) :
    (cache.keep id fp outputs target t).2.world =
      (cache.store id fp outputs target t).2.world := by
  unfold keep
  rw [Action.bind_apply]
  generalize cache.store id fp outputs target t = stored
  obtain ⟨result, t₁⟩ := stored
  cases result <;> rfl

end Cache

/-! ## In memory -/

namespace MemoryCache

/-- The entry of a builder is its last success. -/
def Holds (id : BuilderId) (past : Option Success) (s : Site ρ) : Prop :=
  match past with
  | none => s.memory.entries.get? id = none
  | some past => ∃ entry, s.memory.entries.get? id = some entry ∧ past.fingerprint.IsPortable ∧
    past.fingerprint.encode = .ok entry.fingerprint ∧
    (∀ p, p ∈ entry.files.keys ↔ p ∈ past.outputs) ∧
    ∀ p content, entry.files.get? p = some content → past.files.get? p = some content

variable {id : BuilderId} {fp : Fingerprint} {past : Option Success} {t : Traced (Site ρ)}

theorem contains_of_encode {c : MemoryCache} {encoded : Bytes} (h : fp.encode = .ok encoded) :
    c.contains id fp = .ok ((c.entries.get? id).any (·.fingerprint == encoded)) := by
  unfold contains
  rw [h]
  rfl

theorem contains_apply (h : ∃ encoded, fp.encode = .ok encoded) :
    ∃ found, t.world.memory.contains id fp = .ok found ∧
      (cache Site.memoryPart).contains id fp t = (found, t) := by
  obtain ⟨encoded, hencode⟩ := h
  have hcontains := @contains_of_encode id fp t.world.memory encoded hencode
  refine ⟨_, hcontains, ?_⟩
  have hpart : Site.memoryPart.get t.world = t.world.memory := rfl
  unfold cache
  simp only [Action.bind_apply, Action.ask_apply, hpart, hcontains]
  rfl

theorem Holds.not_contains (h : Holds id past t.world) (hfp : fp.IsPortable)
    (hne : ∀ success, past = some success → success.fingerprint ≠ fp) :
    t.world.memory.contains id fp = .ok false := by
  obtain ⟨encoded, hencode, -⟩ := hfp.encode
  rw [contains_of_encode hencode]
  cases past with
  | none =>
    have h : t.world.memory.entries.get? id = none := h
    rw [h]
    rfl
  | some past =>
    obtain ⟨entry, hentry, hpast, hencode', -, -⟩ := h
    have hother : entry.fingerprint ≠ encoded := fun e =>
      hne past rfl (Fingerprint.eq_of_encode_eq hpast.builtIn hfp.builtIn (e ▸ hencode') hencode)
    rw [hentry, Option.any_some, beq_eq_false_iff_ne.2 hother]

/-- What is kept if the fingerprint can be written and all outputs are in the target. -/
theorem keep_world {encoded : Bytes} {outputs : Outputs} (hencode : fp.encode = .ok encoded)
    (hpresent : ∀ p ∈ outputs, t.world.target.holds p = true) :
    ∃ files, ((cache Site.memoryPart).keep id fp outputs Site.directory t).2.world =
        { t.world with memory := ⟨t.world.memory.entries.insert id ⟨encoded, files⟩⟩ } ∧
      (∀ p, p ∈ files.keys ↔ p ∈ outputs) ∧
      ∀ p content, files.get? p = some content → t.world.target.files.get? p = some content := by
  have hread : ∀ p ∈ outputs.toList, ∃ content, Site.directory.read p t.world = .ok content :=
    fun p hp => (MemoryDirectory.holds_iff _ _).1 (hpresent p ((SortedSet.mem_toList _ _).1 hp))
  obtain ⟨files, hfiles⟩ := readFiles_isOk hread
  have hstore : t.world.memory.store id fp outputs (Site.directory.read · t.world) =
      .ok ⟨t.world.memory.entries.insert id ⟨encoded, .ofList files⟩⟩ := by
    unfold store
    rw [hencode, hfiles]
    rfl
  have hget : (get : Action (Site ρ) _) t = (t, t) := rfl
  have hpart : Site.memoryPart.get t.world = t.world.memory := rfl
  obtain ⟨hkeys, hcontent⟩ := get?_ofList_readFiles hfiles
  refine ⟨.ofList files, ?_, hkeys, fun p content hp => Site.get?_of_read (hcontent p content hp)⟩
  rw [Cache.keep_world]
  unfold cache
  simp only [Action.bind_apply, hget, hpart, hstore]
  rfl

theorem remembers_memory (id : BuilderId) :
    (cache (Site.memoryPart (ρ := ρ))).Remembers id (Holds id) fun _ => True := by
  refine ⟨fun ⟨_, _, hportable, _⟩ => hportable, ?_, ?_, ?_⟩
  · intro past fp t h hfp hne
    obtain ⟨encoded, hencode, -⟩ := hfp.encode
    obtain ⟨found, hfound, hcontains⟩ := @contains_apply _ id fp t ⟨encoded, hencode⟩
    cases hfound.symm.trans (h.not_contains hfp hne)
    exact Cache.reuse_of_not_contains hcontains
  · intro past t h
    obtain ⟨entry, hentry, hpast, hencode, hkeys, hcontent⟩ := h
    obtain ⟨found, hfound, hcontains⟩ := @contains_apply _ id past.fingerprint t ⟨_, hencode⟩
    rw [contains_of_encode hencode, hentry, Option.any_some, beq_self_eq_true] at hfound
    cases hfound
    have hfiles : t.world.memory.files id = .ok entry.files := by
      unfold files
      rw [hentry]
    have houtputs : .ofList entry.files.keys = past.outputs :=
      SortedSet.ext_mem fun p => by rw [SortedSet.mem_ofList, hkeys]
    have hrestore := Workshop.restore_memory hfiles
    obtain ⟨hreuse, hworld⟩ := Cache.reuse_of_restored hcontains (congrArg Prod.fst hrestore)
    rw [hworld, hreuse, houtputs, hrestore]
    refine ⟨rfl, ?_, ⟨entry, hentry, hpast, hencode, hkeys, hcontent⟩, rfl⟩
    intro p hp
    rw [← hkeys, SortedMap.mem_keys, SortedMap.contains, Option.isSome_iff_exists] at hp
    obtain ⟨content, hp⟩ := hp
    refine ⟨content, hcontent p content hp, ?_⟩
    rw [get?_overwritten, hp]
    rfl
  · intro past fp outputs t _ hfp _ hpresent
    obtain ⟨encoded, hencode, -⟩ := hfp.encode
    obtain ⟨files, hworld, hkeys, hcontent⟩ := keep_world hencode hpresent
    rw [hworld]
    exact ⟨⟨_, SortedMap.get?_insert_self _ _ _, hfp, hencode, hkeys, hcontent⟩, rfl⟩

end MemoryCache

/-! ## On the disk -/

namespace DiskCache

/-- The entry of a builder is its last success. -/
def HoldsEntry (c : DiskCache) (vault : Place) (id : BuilderId) (past : Option Success) (d : Disk) :
    Prop :=
  match past with
  | none => Disk.Gone (vault ++ [entryName id]) d
  | some past => past.fingerprint.IsPortable ∧ c.Storable id past.outputs ∧
    ∃ encoded, past.fingerprint.encode = .ok encoded ∧
      Registry.standard.decode encoded = .ok past.fingerprint ∧
      Filed d (vault ++ [entryName id]) id encoded past.outputs past.read

section Entry

variable {c : DiskCache} {vault : Place} {id : BuilderId} {past : Option Success} {d d' : Disk}

theorem HoldsEntry.of_same (h : c.HoldsEntry vault id past d)
    (hsame : Disk.Same (vault ++ [entryName id]) d d') : c.HoldsEntry vault id past d' := by
  cases past with
  | none =>
    intro rest
    rw [hsame]
    exact h rest
  | some success =>
    obtain ⟨hportable, hstorable, encoded, hencode, hdecode, hfiled⟩ := h
    exact ⟨hportable, hstorable, encoded, hencode, hdecode, hfiled.congr hsame⟩

theorem HoldsEntry.at?_entry (h : c.HoldsEntry vault id past d)
    (hfooting : d.Footing c.root vault) :
    d.at? (vault ++ [entryName id]) = past.map fun _ => .dir := by
  cases past with
  | none =>
    have hself := h []
    rwa [List.append_nil] at hself
  | some success =>
    obtain ⟨-, -, encoded, -, -, hfiled⟩ := h
    obtain ⟨serial, hindex⟩ := hfiled.index
    refine hfooting.parent [entryName id] indexName ?_
    rw [← List.append_assoc, hindex]
    exact Option.some_ne_none _

/-- The place of an entry can be taken by one that has the same name. -/
theorem HoldsEntry.replaceable (h : c.HoldsEntry vault id past d)
    (hfooting : d.Footing c.root vault) {other : BuilderId}
    (hname : entryName other = entryName id) :
    Replaceable vault other d := by
  unfold Replaceable
  rw [hname, h.at?_entry hfooting]
  cases past with
  | none => exact .inl rfl
  | some => exact .inr rfl

end Entry

/-- The directory of the cache holds the last success of a builder, and nothing is being staged. -/
structure Holds (c : DiskCache) (vault : Place) (id : BuilderId) (past : Option Success)
    (s : Site ρ) : Prop where
  registry : c.registry = .standard
  footing : s.disk.Footing c.root vault
  staging : Disk.Gone (vault ++ [stagingName]) s.disk
  entry : c.HoldsEntry vault id past s.disk

variable {c : DiskCache} {vault : Place} {id : BuilderId} {fp : Fingerprint}
  {past : Option Success} {success : Success} {s : Site ρ} {t : Traced (Site ρ)}

theorem Holds.readFingerprint_eq (h : c.Holds vault id (some success) s) :
    c.readFingerprint id s.disk = .ok success.fingerprint := by
  obtain ⟨-, hstorable, encoded, -, hdecode, hfiled⟩ := h.entry
  exact hfiled.readFingerprint_eq h.footing hstorable (h.registry ▸ hdecode)

theorem Holds.replaceable (h : c.Holds vault id past s) : Replaceable vault id s.disk :=
  h.entry.replaceable h.footing rfl

theorem contains_of_readFingerprint {stored : Fingerprint}
    (h : c.readFingerprint id t.world.disk = .ok stored) :
    (cache Site.diskPart c).contains id fp t = (stored.agrees fp, t) := by
  have hpart : Site.diskPart.get t.world = t.world.disk := rfl
  unfold cache
  simp only [Action.bind_apply, Action.ask_apply, hpart, h]
  rfl

theorem Holds.not_contains (h : c.Holds vault id past t.world)
    (hne : ∀ success, past = some success → success.fingerprint ≠ fp) :
    ∃ t₁, (cache Site.diskPart c).contains id fp t = (false, t₁) ∧ t₁.world = t.world := by
  obtain ⟨htold, hfound⟩ := Workshop.contains_apply c id fp t
  generalize (cache Site.diskPart c).contains id fp t = answer at htold hfound
  obtain ⟨found, t₁⟩ := answer
  obtain ⟨events, rfl⟩ := htold
  refine ⟨_, Prod.ext (Bool.eq_false_iff.2 fun htrue => ?_) rfl, rfl⟩
  obtain ⟨stored, hstored, hagrees⟩ := hfound htrue
  have hentry := h.entry
  cases past with
  | none =>
    obtain ⟨⟨index, hindex⟩, -⟩ := of_readFingerprint hstored
    obtain ⟨serial, content, -, hfile, -⟩ := at?_of_readIndex h.footing hindex
    cases (hentry [indexName]).symm.trans hfile
  | some success =>
    cases h.readFingerprint_eq.symm.trans hstored
    exact hne success rfl ((Fingerprint.agrees_iff hentry.1.builtIn).1 hagrees)

theorem copyOut_isOk_iff {files : LocalDirectory} : ∀ {l : List RelativePath} {s : Site ρ},
    (copyOut Site.diskPart files id Site.directory l s).1 = .ok () ↔
      ∀ p ∈ l, ∃ content, files.read p s.disk = .ok content
  | [], _ => ⟨fun _ _ hp => (List.not_mem_nil hp).elim, fun _ => rfl⟩
  | p :: rest, s => by
    have hpart : Site.diskPart.get s = s.disk := rfl
    rw [copyOut, hpart, List.forall_mem_cons]
    cases hread : files.read p s.disk with
    | error e =>
      constructor
      · intro h
        cases h
      · rintro ⟨⟨content, hcontent⟩, -⟩
        cases hcontent
    | ok content =>
      have hrest := @copyOut_isOk_iff files rest { s with
        target := { s.target with files := s.target.files.insert p content } }
      exact ⟨fun h => ⟨⟨content, rfl⟩, hrest.1 h⟩, fun h => hrest.2 h.2⟩

theorem restore_of_copyOut {index : EntryIndex} (hindex : c.readIndex id t.world.disk = .ok index)
    (hcopied : (copyOut Site.diskPart (filesIn (c.entryDir id)) id Site.directory
      index.files.toList t.world).1 = .ok ()) :
    ((cache Site.diskPart c).restore id Site.directory t).1 = .ok index.files := by
  have hpart : Site.diskPart.get t.world = t.world.disk := rfl
  unfold cache
  simp only [Action.bind_apply, Action.ask_apply, hpart, hindex, Action.change_apply]
  generalize copyOut Site.diskPart (filesIn (c.entryDir id)) id Site.directory
    index.files.toList t.world = copied at hcopied ⊢
  obtain ⟨result, s⟩ := copied
  cases hcopied
  rfl

/-- What is restored are the files of the index, and all of them can be read. -/
theorem of_restore {outputs : Outputs}
    (h : ((cache Site.diskPart c).restore id Site.directory t).1 = .ok outputs) :
    ∃ index, c.readIndex id t.world.disk = .ok index ∧ outputs = index.files ∧
      ∀ p ∈ outputs, ∃ content,
        (filesIn (c.entryDir id)).read p t.world.disk = .ok content := by
  have hpart : Site.diskPart.get t.world = t.world.disk := rfl
  unfold cache at h
  simp only [Action.bind_apply, Action.ask_apply, hpart] at h
  generalize c.readIndex id t.world.disk = read at h
  cases read with
  | error e => cases h
  | ok index =>
    simp only [Action.bind_apply, Action.change_apply] at h
    generalize hcopied : copyOut Site.diskPart (filesIn (c.entryDir id)) id Site.directory
      index.files.toList t.world = copied at h
    obtain ⟨result, s⟩ := copied
    cases result with
    | error e => cases h
    | ok =>
      cases h
      exact ⟨index, rfl, rfl, fun p hp => copyOut_isOk_iff.1 (congrArg Prod.fst hcopied) p
        ((SortedSet.mem_toList _ _).2 hp)⟩

theorem Holds.restore (h : c.Holds vault id (some success) t.world) :
    ((cache Site.diskPart c).restore id Site.directory t).1 = .ok success.outputs ∧
      (∃ files, ((cache Site.diskPart c).restore id Site.directory t).2.world =
        { t.world with target := { t.world.target with files } }) ∧
      success.Restored ((cache Site.diskPart c).restore id Site.directory t).2.world := by
  obtain ⟨-, hstorable, encoded, -, -, hfiled⟩ := h.entry
  have hindex := hfiled.readIndex_eq h.footing hstorable
  have hread {p : RelativePath} (hp : p ∈ success.outputs) :
      ∃ content, success.files.get? p = some content ∧
        (filesIn (c.entryDir id)).read p t.world.disk = .ok content := by
    obtain ⟨-, content, hcontent, -⟩ := hfiled.files p hp
    exact ⟨content, Success.read_eq_ok.1 hcontent,
      (hfiled.read_eq h.footing hstorable hp).trans hcontent⟩
  have hok := restore_of_copyOut (t := t) hindex <| copyOut_isOk_iff.2 fun p hp => by
    obtain ⟨content, -, hcontent⟩ := hread ((SortedSet.mem_toList _ _).1 hp)
    exact ⟨content, hcontent⟩
  have hfiles : ∀ p ∈ success.outputs, ∀ content,
      (filesIn (c.entryDir id)).read p t.world.disk = .ok content →
        success.files.get? p = some content := by
    intro p hp content hcontent
    obtain ⟨content', hpast, hcontent'⟩ := hread hp
    cases hcontent.symm.trans hcontent'
    exact hpast
  have hcopied := @Workshop.copied_restore _ c ⟨success.outputs, success.files.get?⟩ id t hindex
    hfiles
  refine ⟨hok, hcopied.site, fun p hp => ?_⟩
  obtain ⟨content, hpast, -⟩ := hread hp
  exact ⟨content, hpast, ((hcopied.complete _ hok).2 p hp).trans hpast⟩

theorem remembers_disk (c : DiskCache) (vault : Place) (id : BuilderId) :
    (cache (Site.diskPart (ρ := ρ)) c).Remembers id (c.Holds vault id) (c.Storable id) := by
  refine ⟨fun h => h.entry.1, ?_, ?_, ?_⟩
  · intro past fp t h hfp hne
    obtain ⟨t₁, hcontains, hworld⟩ := h.not_contains hne
    obtain ⟨hreuse, hsame⟩ := Cache.reuse_of_not_contains hcontains
    exact ⟨hreuse, hsame.trans hworld⟩
  · intro past t h
    have hself : past.fingerprint.agrees past.fingerprint = true :=
      Fingerprint.agrees_self _ h.entry.1.builtIn
    have hcontains := @contains_of_readFingerprint _ c id past.fingerprint t _ h.readFingerprint_eq
    rw [hself] at hcontains
    obtain ⟨hok, ⟨files, hsite⟩, hrestored⟩ := h.restore
    obtain ⟨hreuse, hworld⟩ := Cache.reuse_of_restored hcontains hok
    rw [hworld]
    refine ⟨hreuse, hrestored, ?_, by rw [hsite]⟩
    rw [hsite]
    exact ⟨h.registry, h.footing, h.staging, h.entry⟩
  · intro past fp outputs t h hfp hstorable hpresent
    obtain ⟨encoded, hencode, hdecode⟩ := hfp.encode
    have hread : ∀ p ∈ outputs, ∃ content, Site.directory.read p t.world = .ok content :=
      fun p hp => (MemoryDirectory.holds_iff _ _).1 (hpresent p hp)
    obtain ⟨-, hfooting, hstaging, hfiled⟩ :=
      (meets_store_ok h.footing hstorable h.staging h.replaceable hencode hread).run
    rw [Cache.keep_world, (DiskCache.store_eq _ _ _ _ _ _).2]
    exact ⟨⟨h.registry, hfooting, hstaging, hfp, hstorable, encoded, hencode, hdecode, hfiled⟩, rfl⟩

end DiskCache

end Rebuild
