import Rebuild.Proofs.Cache.Keeping
import Rebuild.Proofs.Incremental.Recompute

/-!
# Both caches keep the same archive

An archive is a map from builders to what was stored of them last. A cache in memory
and one on the disk answer every sequence of requests like an archive, and what is
handed out is the same, however often the one on the disk is closed and opened again.
It takes paths that the operating system accepts, and directories of entries that have
different names.

* `Request`, `Answer`, `transcript`: what is asked of a cache, and what it answers.
* `Archive.respond`, `MemoryCache.respond`, `DiskCache.respond`: three systems that answer.
* `MemoryCache.Mirrors`, `DiskCache.Mirrors`: caches that hold what an archive holds.
* `Archive.same_map`: they answer alike.
-/
namespace Rebuild
open DiskM CacheLock

variable {ρ σ τ : Type}

/-! ## Requests and answers -/

/-- What is asked of a cache, and what happens in between. Directories are apart from the cache. -/
inductive Request (ρ : Type) where
  | store (id : BuilderId) (fp : Fingerprint) (outputs : Outputs) (source : Directory ρ)
  | contains (id : BuilderId) (fp : Fingerprint)
  | restore (id : BuilderId) (target : Directory ρ)
  | remove (id : BuilderId)
  /-- Something changes, but not the cache. -/
  | elsewhere (change : ρ → ρ)
  /-- A cache on the disk is closed and opened again. -/
  | reopen (process started : Nat)

inductive Answer where
  | stored (result : Except CacheError Unit)
  | found (found : Bool)
  | restored (result : Except CacheError Outputs)
  | removed (result : Except CacheError Bool)
  | changed
  | reopened (result : Except CacheError Unit)

/-- The answers to requests, each with what lies outside the cache then. -/
def transcript (respond : Request ρ → σ → Answer × σ) (outside : σ → ρ) :
    List (Request ρ) → σ → List (Answer × ρ)
  | [], _ => []
  | request :: rest, s =>
    ((respond request s).1, outside (respond request s).2) ::
      transcript respond outside rest (respond request s).2

/-- Systems that answer alike and stay related have the same transcript. -/
theorem transcript_eq {respond : Request ρ → σ → Answer × σ}
    {respond' : Request ρ → τ → Answer × τ} {outside : σ → ρ} {outside' : τ → ρ}
    (Related : σ → τ → Prop) (hout : ∀ s t, Related s t → outside s = outside' t) :
    ∀ {requests : List (Request ρ)} {s : σ} {t : τ},
    (∀ request ∈ requests, ∀ s t, Related s t →
      (respond request s).1 = (respond' request t).1 ∧
        Related (respond request s).2 (respond' request t).2) →
    Related s t → transcript respond outside requests s = transcript respond' outside' requests t
  | [], _, _, _, _ => rfl
  | request :: rest, s, t, hstep, h => by
    obtain ⟨hfirst, hrest⟩ := List.forall_mem_cons.1 hstep
    obtain ⟨hanswer, hrelated⟩ := hfirst s t h
    rw [transcript, transcript, hanswer, hout _ _ hrelated,
      transcript_eq Related hout hrest hrelated]

/-! ## Archives -/

/-- Of each builder, what was stored last: the fingerprint, the outputs and their contents. -/
abbrev Archive := SortedMap BuilderId Success

namespace Archive

/-- How an archive answers. -/
def respond : Request ρ → Archive × ρ → Answer × Archive × ρ
  | .store id fp outputs source, s =>
    match MemoryCache.readFiles (source.read · s.2) outputs.toList with
    | .ok files => (.stored (.ok ()), s.1.insert id ⟨fp, outputs, .ofList files⟩, s.2)
    | .error e => (.stored (.error (.artifact id e)), s)
  | .contains id fp, s => (.found ((s.1.get? id).any (·.fingerprint.agrees fp)), s)
  | .restore id target, s =>
    (.restored (DiskCache.handOut id (s.1.get? id) target s.2).1, s.1,
      (DiskCache.handOut id (s.1.get? id) target s.2).2)
  | .remove id, s => (.removed (.ok (s.1.contains id)), s.1.erase id, s.2)
  | .elsewhere change, s => (.changed, s.1, change s.2)
  | .reopen _ _, s => (.reopened (.ok ()), s)

/-- What is held of each builder are just its outputs, under a fingerprint that can be written. -/
def Sound (a : Archive) : Prop :=
  ∀ id success, a.get? id = some success →
    success.fingerprint.IsPortable ∧ success.files.keys = success.outputs.toList

variable {a : Archive} {id : BuilderId} {fp : Fingerprint} {outputs : Outputs}
  {read : RelativePath → Except FsError Bytes} {files : List (RelativePath × Bytes)}

theorem keys_ofList (hfiles : MemoryCache.readFiles read outputs.toList = .ok files) :
    (SortedMap.ofList files).keys = outputs.toList := by
  obtain ⟨hkeys, -⟩ := MemoryCache.readFiles_eq hfiles
  have hascending : Assoc.Ascending files := by
    rw [SortedMap.ascending_iff, hkeys]
    exact (SortedMap.ascending_iff _).1 outputs.map.ascending
  have hmap : SortedMap.ofList files = ⟨files, hascending⟩ :=
    SortedMap.ofList_entries ⟨files, hascending⟩
  rw [hmap]
  exact hkeys

theorem sound_empty : Sound ∅ := fun _ _ hsome => nomatch hsome

theorem Sound.insert (h : a.Sound) (hfp : fp.IsPortable)
    (hfiles : MemoryCache.readFiles read outputs.toList = .ok files) :
    Sound (SortedMap.insert a id ⟨fp, outputs, .ofList files⟩) := by
  intro other success hsome
  rw [SortedMap.get?_insert] at hsome
  split at hsome
  · cases hsome
    exact ⟨hfp, keys_ofList hfiles⟩
  · exact h other success hsome

theorem Sound.erase (h : a.Sound) : Sound (SortedMap.erase a id) := by
  intro other success hsome
  rw [SortedMap.get?_erase] at hsome
  split at hsome
  · cases hsome
  · exact h other success hsome

end Archive

/-! ## In memory -/

namespace Site

theorem writeAll_elsewhere (dir : Directory ρ) : ∀ (l : List (RelativePath × Bytes)) (s : Site ρ),
    (elsewhere dir).writeAll l s = restPart.change (dir.writeAll l) s
  | [], s => rfl
  | (p, content) :: l, s => by
    have hrest : restPart.get s = s.rest := rfl
    have hwrite : (elsewhere dir).write p content s =
        ((dir.write p content s.rest).1, { s with rest := (dir.write p content s.rest).2 }) := rfl
    rw [Directory.writeAll, Part.change, Directory.writeAll, hwrite, hrest]
    generalize dir.write p content s.rest = written
    obtain ⟨result, r⟩ := written
    cases result with
    | error e => rfl
    | ok => exact writeAll_elsewhere dir l { s with rest := r }

/-- Something changes outside of caches. -/
def afterChange (change : ρ → ρ) (t : Traced (Site ρ)) : Traced (Site ρ) :=
  { t with world := { t.world with rest := change t.world.rest } }

end Site

namespace MemoryCache

/-- How a cache in memory answers. -/
def respond : Request ρ → Traced (Site ρ) → Answer × Traced (Site ρ)
  | .store id fp outputs source, t =>
    let stored := (cache Site.memoryPart).store id fp outputs (Site.elsewhere source) t
    (.stored stored.1, stored.2)
  | .contains id fp, t =>
    let asked := (cache Site.memoryPart).contains id fp t
    (.found asked.1, asked.2)
  | .restore id target, t =>
    let restored := (cache Site.memoryPart).restore id (Site.elsewhere target) t
    (.restored restored.1, restored.2)
  | .remove id, t =>
    let removed := Site.memoryPart.change (·.remove id) t.world
    (.removed (.ok removed.1), { t with world := removed.2 })
  | .elsewhere change, t => (.changed, Site.afterChange change t)
  | .reopen _ _, t => (.reopened (.ok ()), t)

/-- The entry of a builder is what an archive holds of it. -/
def Entered (entry : MemoryEntry) (success : Success) : Prop :=
  success.fingerprint.encode = .ok entry.fingerprint ∧ entry.files = success.files

/-- A cache in memory that holds just what an archive holds. -/
structure Mirrors (s : Archive × ρ) (t : Traced (Site ρ)) : Prop where
  entries : ∀ id, Option.Rel Entered (t.world.memory.entries.get? id) (s.1.get? id)
  sound : s.1.Sound
  outside : s.2 = t.world.rest

/-- Both answer a request alike, and the cache still holds what the archive holds. -/
def Agree (request : Request ρ) (s : Archive × ρ) (t : Traced (Site ρ)) : Prop :=
  (Archive.respond request s).1 = (respond request t).1 ∧
    Mirrors (Archive.respond request s).2 (respond request t).2

variable {s : Archive × ρ} {t : Traced (Site ρ)} {id : BuilderId} {fp : Fingerprint}
  {outputs : Outputs}

theorem Mirrors.store (h : Mirrors s t) (hfp : fp.IsPortable) (source : Directory ρ) :
    Agree (.store id fp outputs source) s t := by
  obtain ⟨encoded, hencode, -⟩ := hfp.encode
  have hget : (get : Action (Site ρ) _) t = (t, t) := rfl
  have hpart : Site.memoryPart.get t.world = t.world.memory := rfl
  have hread : ((Site.elsewhere source).read · t.world) = (source.read · t.world.rest) := rfl
  unfold Agree Archive.respond respond cache MemoryCache.store
  simp only [Action.bind_apply, hget, hpart, hread, hencode, h.outside]
  cases hfiles : readFiles (source.read · t.world.rest) outputs.toList with
  | error e => exact ⟨rfl, h⟩
  | ok files =>
    refine ⟨rfl, fun other => ?_, h.sound.insert hfp hfiles, rfl⟩
    show Option.Rel Entered
      ((t.world.memory.entries.insert id ⟨encoded, .ofList files⟩).get? other)
      ((SortedMap.insert s.1 id ⟨fp, outputs, .ofList files⟩).get? other)
    rw [SortedMap.get?_insert, SortedMap.get?_insert]
    split
    · exact .some ⟨hencode, rfl⟩
    · exact h.entries other

theorem Mirrors.contains (h : Mirrors s t) (hfp : fp.IsPortable) :
    Agree (.contains id fp) s t := by
  obtain ⟨encoded, hencode, -⟩ := hfp.encode
  obtain ⟨found, hfound, hcontains⟩ := @contains_apply ρ id fp t ⟨encoded, hencode⟩
  rw [contains_of_encode hencode] at hfound
  have hentry := h.entries id
  have hsound := h.sound id
  unfold Agree Archive.respond respond
  dsimp only
  rw [hcontains]
  refine ⟨congrArg Answer.found ?_, h⟩
  rw [← Except.ok.inj hfound]
  generalize t.world.memory.entries.get? id = entry? at hentry ⊢
  generalize s.1.get? id = success? at hentry hsound ⊢
  cases hentry with
  | none => rfl
  | @some entry success hentered =>
    obtain ⟨hpast, -⟩ := hsound success rfl
    rw [Option.any_some, Option.any_some, Bool.eq_iff_iff, beq_iff_eq,
      Fingerprint.agrees_iff hpast.builtIn]
    constructor
    · intro heq
      subst heq
      exact Except.ok.inj (hentered.1.symm.trans hencode)
    · intro heq
      exact Fingerprint.eq_of_encode_eq hpast.builtIn hfp.builtIn (heq ▸ hentered.1) hencode

theorem Mirrors.restore (h : Mirrors s t) (target : Directory ρ) :
    Agree (.restore id target) s t := by
  have hpart : Site.memoryPart.get t.world = t.world.memory := rfl
  have hentry := h.entries id
  have hsound := h.sound id
  unfold Agree Archive.respond respond cache files
  simp only [Action.bind_apply, Action.ask_apply, hpart, h.outside]
  generalize t.world.memory.entries.get? id = entry? at hentry ⊢
  generalize s.1.get? id = success? at hentry hsound ⊢
  cases hentry with
  | none => exact ⟨rfl, h.entries, h.sound, rfl⟩
  | @some entry success hentered =>
    obtain ⟨-, hfiles⟩ := hentered
    obtain ⟨-, hkeys⟩ := hsound success rfl
    have hrest : Site.restPart.get t.world = t.world.rest := rfl
    have houtputs : SortedSet.ofList success.files.keys = success.outputs := by
      rw [hkeys, SortedSet.ofList_toList]
    simp only [Action.bind_apply, Action.change_apply, Site.writeAll_elsewhere, Part.change, hrest,
      hfiles, DiskCache.handOut, houtputs]
    generalize target.writeAll success.files.entries t.world.rest = written
    obtain ⟨result, r⟩ := written
    cases result <;> exact ⟨rfl, h.entries, h.sound, rfl⟩

theorem Mirrors.remove (h : Mirrors s t) : Agree (.remove id) s t := by
  refine ⟨?_, fun other => ?_, h.sound.erase, h.outside⟩
  · have hentry := h.entries id
    show Answer.removed (.ok (s.1.get? id).isSome) =
      Answer.removed (.ok (t.world.memory.entries.get? id).isSome)
    generalize t.world.memory.entries.get? id = entry? at hentry ⊢
    generalize s.1.get? id = success? at hentry ⊢
    cases hentry <;> rfl
  · show Option.Rel Entered ((t.world.memory.entries.erase id).get? other)
      ((SortedMap.erase s.1 id).get? other)
    rw [SortedMap.get?_erase, SortedMap.get?_erase]
    split
    · exact .none
    · exact h.entries other

/-- Requests with fingerprints that survive the protocol. -/
def Takes : Request ρ → Prop
  | .store _ fp _ _ => fp.IsPortable
  | .contains _ fp => fp.IsPortable
  | _ => True

theorem Mirrors.agree (h : Mirrors s t) {request : Request ρ} (hrequest : Takes request) :
    Agree request s t := by
  cases request with
  | store id fp outputs source => exact h.store hrequest source
  | contains id fp => exact h.contains hrequest
  | restore id target => exact h.restore target
  | remove id => exact h.remove
  | elsewhere change => exact ⟨rfl, h.entries, h.sound, congrArg change h.outside⟩
  | reopen process started => exact ⟨rfl, h⟩

end MemoryCache

/-! ## On the disk -/

namespace DiskCache

/-- How a cache on the disk answers. -/
def respond : Request ρ → DiskCache × Traced (Site ρ) → Answer × DiskCache × Traced (Site ρ)
  | .store id fp outputs source, u =>
    let stored := (cache Site.diskPart u.1).store id fp outputs (Site.elsewhere source) u.2
    (.stored stored.1, u.1, stored.2)
  | .contains id fp, u =>
    let asked := (cache Site.diskPart u.1).contains id fp u.2
    (.found asked.1, u.1, asked.2)
  | .restore id target, u =>
    let restored := (cache Site.diskPart u.1).restore id (Site.elsewhere target) u.2
    (.restored restored.1, u.1, restored.2)
  | .remove id, u =>
    let removed := Site.diskPart.change (u.1.remove id).run u.2.world
    (.removed removed.1, u.1, { u.2 with world := removed.2 })
  | .elsewhere change, u => (.changed, u.1, Site.afterChange change u.2)
  | .reopen process started, u =>
    let closed := { u.2.world with disk := u.1.lock.release u.2.world.disk }
    match openIn Site.diskPart u.1.root .standard process started { u.2 with world := closed } with
    | (.ok c, t) => (.reopened (.ok ()), c, t)
    | (.error e, t) => (.reopened (.error e), u.1, t)

/-- A cache on the disk that holds just what an archive holds, of some builders. -/
structure Mirrors (root : OsPath) (dir : Place) (known : BuilderId → Prop) (s : Archive × ρ)
    (u : DiskCache × Traced (Site ρ)) : Prop where
  root_eq : u.1.root = root
  opened : u.1.Open dir u.2.world.disk
  entries : ∀ id, known id → u.1.HoldsEntry dir id (s.1.get? id) u.2.world.disk
  sound : s.1.Sound
  outside : s.2 = u.2.world.rest

/-- Both answer a request alike, and the cache still holds what the archive holds. -/
def Agree (root : OsPath) (dir : Place) (known : BuilderId → Prop) (request : Request ρ)
    (s : Archive × ρ) (u : DiskCache × Traced (Site ρ)) : Prop :=
  (Archive.respond request s).1 = (respond request u).1 ∧
    Mirrors root dir known (Archive.respond request s).2 (respond request u).2

/-- Builders whose entries have directories with different names, and paths that are not too long.
-/
structure Tells (c : DiskCache) (known : BuilderId → Prop) : Prop where
  apart : ∀ a b, known a → known b → shortHash a.text = shortHash b.text → a = b
  room : ∀ id, known id → c.Storable id ∅

/-- Requests about such builders, with fingerprints that survive the protocol and outputs that can
be stored. -/
def Takes (c : DiskCache) (known : BuilderId → Prop) : Request ρ → Prop
  | .store id fp outputs _ => known id ∧ fp.IsPortable ∧ c.Storable id outputs
  | .contains id _ => known id
  | .restore id _ => known id
  | .remove id => known id
  | _ => True

section Steps

variable {c : DiskCache} {dir : Place} {known : BuilderId → Prop} {s : Archive × ρ}
  {u : DiskCache × Traced (Site ρ)} {id : BuilderId} {fp : Fingerprint} {outputs : Outputs}

theorem Mirrors.entries_of_spares (h : Mirrors c.root dir known s u) (hknown : c.Tells known)
    (hid : known id) {d : Disk} (hspares : u.1.Spares dir id u.2.world.disk d) {other : BuilderId}
    (hother : known other) (hne : other ≠ id) :
    u.1.HoldsEntry dir other (s.1.get? other) d := by
  refine (h.entries other hother).of_same (hspares.others other fun heq => hne ?_)
  exact hknown.apart other id hother hid (Bytes.ofText_injective heq)

theorem Mirrors.store (h : Mirrors c.root dir known s u) (hknown : c.Tells known) (hid : known id)
    (hfp : fp.IsPortable) (hout : c.Storable id outputs) (source : Directory ρ) :
    Agree c.root dir known (.store id fp outputs source) s u := by
  have hout := hout.of_root h.root_eq
  have hread : ((Site.elsewhere source).read · u.2.world) = (source.read · s.2) := by
    rw [h.outside]
    rfl
  obtain ⟨hresult, hworld⟩ := store_eq u.1 id fp outputs (Site.elsewhere source) u.2
  rw [hread] at hresult hworld
  unfold Agree Archive.respond respond
  dsimp only
  cases hfiles : MemoryCache.readFiles (source.read · s.2) outputs.toList with
  | error e =>
    obtain ⟨herror, hopen, hsame⟩ := h.opened.store_unread hfp hout hfiles
    refine ⟨congrArg Answer.stored (hresult.trans herror).symm, h.root_eq, ?_, ?_, h.sound, ?_⟩
    · rw [hworld]
      exact hopen
    · intro other hother
      rw [hworld]
      exact (h.entries other hother).of_same (hsame other)
    · rw [hworld]
      exact h.outside
  | ok files =>
    obtain ⟨hok, hspares, hheld⟩ := h.opened.store (h.entries id hid) hfp hout hfiles
    refine ⟨congrArg Answer.stored (hresult.trans hok).symm, h.root_eq, ?_, ?_,
      h.sound.insert hfp hfiles, ?_⟩
    · rw [hworld]
      exact hspares.stays
    · intro other hother
      rw [hworld]
      dsimp only
      by_cases hne : other = id
      · rw [hne, SortedMap.get?_insert_self]
        exact hheld
      · rw [SortedMap.get?_insert_of_ne hne]
        exact h.entries_of_spares hknown hid hspares hother hne
    · rw [hworld]
      exact h.outside

theorem Mirrors.contains (h : Mirrors c.root dir known s u) (hid : known id) :
    Agree c.root dir known (.contains id fp) s u := by
  obtain ⟨hresult, hworld⟩ := contains_eq Site.diskPart u.1 id fp u.2
  have hanswer : u.1.answer id fp u.2.world.disk = _ := answer_eq h.opened (h.entries id hid)
  unfold Agree Archive.respond respond
  dsimp only
  refine ⟨congrArg Answer.found (hresult.trans hanswer).symm, h.root_eq, ?_, ?_, h.sound, ?_⟩
  · rw [hworld]
    exact h.opened
  · rw [hworld]
    exact h.entries
  · rw [hworld]
    exact h.outside

theorem Tells.withinLimits (hknown : c.Tells known) (hid : known id) :
    Disk.WithinLimits c.root [entryName id] ∧ Disk.WithinLimits c.root [entryName id, indexName] :=
  ⟨(hknown.room id hid).withinLimits_entry,
    (hknown.room id hid).withinLimits (List.mem_cons_of_mem _ List.mem_cons_self)
      index_mem_entryPlaces⟩

theorem Mirrors.restore (h : Mirrors c.root dir known s u) (hknown : c.Tells known)
    (hid : known id) (target : Directory ρ) :
    Agree c.root dir known (.restore id target) s u := by
  obtain ⟨hresult, hworld⟩ := restore_eq u.1 id target u.2
  have hrestored := restoration_eq h.opened (h.entries id hid)
    (h.root_eq ▸ (hknown.withinLimits hid).2) (fun success hsome => (h.sound id success hsome).2)
    target u.2.world.rest
  rw [← h.outside] at hrestored
  unfold Agree Archive.respond respond
  dsimp only
  rw [← h.outside, hrestored] at hresult hworld
  refine ⟨congrArg Answer.restored hresult.symm, h.root_eq, ?_, ?_, h.sound, ?_⟩
  · rw [hworld]
    exact h.opened
  · rw [hworld]
    exact h.entries
  · rw [hworld]

theorem Mirrors.remove (h : Mirrors c.root dir known s u) (hknown : c.Tells known)
    (hid : known id) : Agree c.root dir known (.remove id) s u := by
  obtain ⟨hresult, hspares, hgone⟩ :=
    h.opened.remove (h.entries id hid) (h.root_eq.symm ▸ (hknown.withinLimits hid).1)
  unfold Agree Archive.respond respond
  dsimp only
  rw [Site.change_disk]
  generalize (u.1.remove id).run u.2.world.disk = removed at hresult hspares hgone ⊢
  refine ⟨congrArg Answer.removed hresult.symm, h.root_eq, hspares.stays, ?_, h.sound.erase,
    h.outside⟩
  intro other hother
  dsimp only
  rw [SortedMap.get?_erase]
  by_cases hne : other = id
  · rw [hne, if_pos Std.ReflOrd.compare_self]
    exact hgone
  · rw [if_neg fun heq => hne (Std.LawfulEqOrd.eq_of_compare heq)]
    exact h.entries_of_spares hknown hid hspares hother hne

theorem Mirrors.reopen (h : Mirrors c.root dir known s u) (hroot : Lockable c.root)
    (process started : Nat) : Agree c.root dir known (.reopen process started) s u := by
  obtain ⟨c', t', hopened, hroot', hopen, hrest, hsame⟩ :=
    @DiskCache.reopen ρ u.1 dir u.2.world.disk
      { u.2 with world := { u.2.world with disk := u.1.lock.release u.2.world.disk } }
      h.opened (h.root_eq.symm ▸ hroot) rfl process started
  unfold Agree Archive.respond respond
  dsimp only
  rw [hopened]
  exact ⟨rfl, hroot'.trans h.root_eq, hopen,
    fun id hid => ((h.entries id hid).of_same (hsame id)).of_root hroot', h.sound,
    h.outside.trans hrest.symm⟩

theorem Mirrors.agree (h : Mirrors c.root dir known s u) (hroot : Lockable c.root)
    (hknown : c.Tells known) {request : Request ρ} (hrequest : c.Takes known request) :
    Agree c.root dir known request s u := by
  cases request with
  | store id fp outputs source =>
    exact h.store hknown hrequest.1 hrequest.2.1 hrequest.2.2 source
  | contains id fp => exact h.contains hrequest
  | restore id target => exact h.restore hknown hrequest target
  | remove id => exact h.remove hknown hrequest
  | elsewhere change =>
    exact ⟨rfl, h.root_eq, h.opened, h.entries, h.sound, congrArg change h.outside⟩
  | reopen process started => exact h.reopen hroot process started

end Steps

end DiskCache

/-! ## The same map -/

theorem MemoryCache.transcript_archive {t : Traced (Site ρ)} (hmemory : t.world.memory = {})
    {requests : List (Request ρ)} (hrequests : ∀ request ∈ requests, Takes request) :
    transcript respond (·.world.rest) requests t =
      transcript Archive.respond Prod.snd requests (∅, t.world.rest) := by
  have hmirrors : Mirrors (∅, t.world.rest) t := by
    refine ⟨fun id => ?_, Archive.sound_empty, rfl⟩
    rw [hmemory]
    exact .none
  refine (transcript_eq Mirrors (fun _ _ h => h.outside) ?_ hmirrors).symm
  intro request hrequest s u h
  exact h.agree (hrequests request hrequest)

theorem DiskCache.transcript_archive {c : DiskCache} {dir : Place} {known : BuilderId → Prop}
    {t : Traced (Site ρ)} (hfresh : (Storage.disk c).Fresh dir t.world)
    (hheld : Held c.root dir c.lock t.world.disk) (hroot : Lockable c.root)
    (hknown : c.Tells known) {requests : List (Request ρ)}
    (hrequests : ∀ request ∈ requests, c.Takes known request) :
    transcript respond (·.2.world.rest) requests (c, t) =
      transcript Archive.respond Prod.snd requests (∅, t.world.rest) := by
  have hholds (id : BuilderId) : c.Holds dir id none t.world := Storage.Fresh.holds hfresh id
  obtain ⟨hregistry, hfooting, hstaging, -⟩ := hholds ⟨"", ""⟩
  have hmirrors : Mirrors c.root dir known (∅, t.world.rest) (c, t) :=
    ⟨rfl, ⟨hregistry, hfooting, hstaging, hheld⟩, fun id _ => (hholds id).entry,
      Archive.sound_empty, rfl⟩
  refine (transcript_eq (Mirrors c.root dir known) (fun _ _ h => h.outside) ?_ hmirrors).symm
  intro request hrequest s u h
  exact h.agree hroot hknown (hrequests request hrequest)

/-- Both caches answer every sequence of requests as an archive does, from the moment when nothing
is stored. -/
theorem Archive.same_map {c : DiskCache} {dir : Place} {known : BuilderId → Prop}
    {t t' : Traced (Site ρ)} (hmemory : t.world.memory = {})
    (hdisk : (Storage.disk c).Fresh dir t'.world) (hheld : Held c.root dir c.lock t'.world.disk)
    (hroot : Lockable c.root) (hrest : t'.world.rest = t.world.rest) (hknown : c.Tells known)
    {requests : List (Request ρ)}
    (hrequests : ∀ request ∈ requests, MemoryCache.Takes request ∧ c.Takes known request) :
    transcript MemoryCache.respond (·.world.rest) requests t =
        transcript Archive.respond Prod.snd requests (∅, t.world.rest) ∧
      transcript DiskCache.respond (·.2.world.rest) requests (c, t') =
        transcript Archive.respond Prod.snd requests (∅, t.world.rest) := by
  refine ⟨MemoryCache.transcript_archive hmemory fun request hrequest =>
    (hrequests request hrequest).1, ?_⟩
  rw [← hrest]
  exact DiskCache.transcript_archive hdisk hheld hroot hknown fun request hrequest =>
    (hrequests request hrequest).2

/-! ## A directory of stamps -/

namespace Stamp

/-- A directory in memory as the world outside of caches. -/
def source : Directory MemoryDirectory := MemoryDirectory.directory .whole "source"

/-- A site with the cache on its disk, which was just opened, and a directory with one file. -/
def shelf (p : RelativePath) : Site MemoryDirectory :=
  ⟨⟨"target", ∅⟩, {}, disk, (MemoryDirectory.mk "source" ∅).write p []⟩

theorem fresh_shelf (p : RelativePath) : (Storage.disk cache).Fresh vault (shelf p) :=
  empty_site true

theorem held_shelf : Held cache.root vault cache.lock disk := by
  refine ⟨by decide, [], ?_⟩
  rw [at?_disk (Disk.inside_append vault (List.cons_ne_nil _ _)), if_pos rfl]
  rfl

theorem lockable_root : Lockable cache.root :=
  ⟨⟨List.forall_mem_singleton.2 ⟨CacheLock.isName_fileName, by decide, by decide⟩, by decide⟩,
    "/cache", by decide⟩

theorem storable_nothing (id : BuilderId) : cache.Storable id ∅ := by
  have hnone {p : RelativePath} (hp : p ∈ (∅ : Outputs)) : False := SortedSet.not_mem_empty p hp
  exact DiskCache.storable_of_room (fun _ hp => (hnone hp).elim) (fun _ hp => (hnone hp).elim)
    (fun _ hp => (hnone hp).elim) (by decide) fun _ hp => (hnone hp).elim

theorem tells_builderId : cache.Tells (· = builderId) :=
  ⟨fun _ _ ha hb _ => ha.trans hb.symm, fun id _ => storable_nothing id⟩

theorem readFiles_shelf (p : RelativePath) :
    MemoryCache.readFiles (source.read · (shelf p).rest) (SortedSet.toList (.ofList [p])) =
      .ok [(p, [])] := by
  have hread : source.read p (shelf p).rest = .ok [] := MemoryDirectory.read_write_self _ _ _
  show MemoryCache.readFiles _ [p] = _
  rw [MemoryCache.readFiles, bind_ok hread]
  rfl

/-- What was stored is there after the cache was closed and opened again, also when the file is
gone from where it came, and then it is removed. -/
theorem same_map_reopened :
    let requests : List (Request MemoryDirectory) :=
      [.store builderId .empty (.ofList [path]) source, .reopen 7 8, .contains builderId .empty,
        .elsewhere fun d => ⟨d.name, ∅⟩, .restore builderId source, .remove builderId]
    let there := (shelf path).rest
    let answers := [(.stored (.ok ()), there), (.reopened (.ok ()), there), (.found true, there),
      (.changed, ⟨"source", ∅⟩), (.restored (.ok (.ofList [path])), there),
      (.removed (.ok true), there)]
    transcript MemoryCache.respond (·.world.rest) requests ⟨shelf path, []⟩ = answers ∧
      transcript DiskCache.respond (·.2.world.rest) requests (cache, ⟨shelf path, []⟩) =
        answers := by
  intro requests there answers
  have hrequests : ∀ request ∈ requests,
      MemoryCache.Takes request ∧ cache.Takes (· = builderId) request := by
    simp only [requests, List.forall_mem_cons]
    exact ⟨⟨Tally.isPortable_empty, rfl, Tally.isPortable_empty, Tally.storable_stamp⟩,
      ⟨trivial, trivial⟩, ⟨Tally.isPortable_empty, rfl⟩, ⟨trivial, trivial⟩, ⟨trivial, rfl⟩,
      ⟨trivial, rfl⟩, fun _ hmem => (List.not_mem_nil hmem).elim⟩
  have harchive : transcript Archive.respond Prod.snd requests (∅, there) = answers := by rfl
  obtain ⟨hmemory, hdisk⟩ := @Archive.same_map _ cache vault (· = builderId) ⟨shelf path, []⟩
    ⟨shelf path, []⟩ rfl (fresh_shelf path) held_shelf lockable_root rfl tells_builderId requests
    hrequests
  exact ⟨hmemory.trans harchive, hdisk.trans harchive⟩

/-- The outputs of a builder are stored and restored. -/
def roundTrip (p : RelativePath) : List (Request MemoryDirectory) :=
  [.store builderId .empty (.ofList [p]) source, .restore builderId source]

theorem roundTrip_archive (p : RelativePath) : ∃ r r',
    transcript Archive.respond Prod.snd (roundTrip p) (∅, (shelf p).rest) =
      [(.stored (.ok ()), r), (.restored (.ok (.ofList [p])), r')] := by
  have hstored : Archive.respond (.store builderId .empty (.ofList [p]) source)
      (∅, (shelf p).rest) = (.stored (.ok ()),
        SortedMap.insert ∅ builderId ⟨.empty, .ofList [p], .ofList [(p, [])]⟩,
        (shelf p).rest) := by
    unfold Archive.respond
    dsimp only
    rw [readFiles_shelf]
  unfold roundTrip
  simp only [transcript, hstored]
  exact ⟨_, _, rfl⟩

theorem roundTrip_tooLong {p : RelativePath} (h : DiskCache.TooLong p) :
    transcript DiskCache.respond (·.2.world.rest) (roundTrip p) (cache, ⟨shelf p, []⟩) ≠
      transcript Archive.respond Prod.snd (roundTrip p) (∅, (shelf p).rest) := by
  intro heq
  obtain ⟨r, r', harchive⟩ := roundTrip_archive p
  rw [harchive] at heq
  have hsecond := (List.cons.inj (List.cons.inj heq).2).1
  have hrestored := Answer.restored.inj (Prod.mk.inj hsecond).1
  rw [(DiskCache.restore_eq _ _ _ _).1] at hrestored
  obtain ⟨index, files, hindex, -, hfiles, -⟩ := DiskCache.of_restoration hrestored
  have hmem : p ∈ SortedSet.toList (.ofList [p]) :=
    (SortedSet.mem_toList _ _).2 ((SortedSet.mem_ofList _ _).2 (List.mem_singleton_self p))
  obtain ⟨hkeys, hread⟩ := MemoryCache.readFiles_eq hfiles
  rw [← hkeys] at hmem
  obtain ⟨e, he, hp⟩ := List.mem_map.1 hmem
  exact h.not_read (hp ▸ hread e.1 e.2 he)

/-- A path of names that the disk takes is restored from memory, but not from the disk, because it
is too long as a whole. -/
theorem deep_not_restored :
    (Storage.disk cache).Fresh vault (shelf Tally.deep) ∧
      (∀ s ∈ Tally.deep.segments, (Bytes.ofText s).length = 250 ∧ (0 : UInt8) ∉ Bytes.ofText s) ∧
      transcript MemoryCache.respond (·.world.rest) (roundTrip Tally.deep)
          ⟨shelf Tally.deep, []⟩ ≠
        transcript DiskCache.respond (·.2.world.rest) (roundTrip Tally.deep)
          (cache, ⟨shelf Tally.deep, []⟩) := by
  refine ⟨fresh_shelf _, fun s hs => List.eq_of_mem_replicate hs ▸ Tally.ofText_longSegment, ?_⟩
  have hrequests : ∀ request ∈ roundTrip Tally.deep, MemoryCache.Takes request := by
    unfold roundTrip
    simp only [List.forall_mem_cons]
    exact ⟨Tally.isPortable_empty, trivial, fun _ hmem => (List.not_mem_nil hmem).elim⟩
  rw [MemoryCache.transcript_archive rfl hrequests]
  exact (roundTrip_tooLong Tally.tooLong_deep).symm

end Stamp

end Rebuild
