import Rebuild.Proofs.Cache.Opening
import Rebuild.Proofs.Incremental.Recall

/-!
# What an open cache does

While a cache is open and nobody else touches its root, each operation comes to just
what it should: a store replaces the entry of a builder, or it fails with the first
output that cannot be read and leaves everything as it was; a removal takes an entry
away; what is asked and restored is what was stored last. The cache stays open, the
entries of others stay as they are, and it can be closed and opened again.

* `DiskCache.Open`: a cache that is open.
* `Open.store`, `Open.store_unread`, `Open.remove`: changes.
* `DiskCache.answer_eq`, `DiskCache.restoration_eq`: what is told and handed out.
* `DiskCache.reopen`: a cache that was closed is opened again.
-/
namespace Rebuild
open DiskM CacheLock

namespace DiskCache

variable {ρ : Type} {c c' : DiskCache} {dir : Place} {id : BuilderId} {fp : Fingerprint}
  {outputs : Outputs} {read : RelativePath → Except FsError Bytes} {past : Option Success}
  {d d' : Disk}

/-! ## Open caches -/

/-- A cache with the default registry that is open, while nothing is being staged. -/
structure Open (c : DiskCache) (dir : Place) (d : Disk) : Prop where
  registry : c.registry = .standard
  footing : d.Footing c.root dir
  staging : Disk.Gone (dir ++ [stagingName]) d
  held : Held c.root dir c.lock d

/-- The cache is still open, and entries in other directories are as they were. -/
structure Spares (c : DiskCache) (dir : Place) (id : BuilderId) (d d' : Disk) : Prop where
  stays : c.Open dir d'
  others : ∀ other, entryName other ≠ entryName id → Disk.Same (dir ++ [entryName other]) d d'

theorem Storable.of_root (h : c.Storable id outputs) (hroot : c'.root = c.root) :
    c'.Storable id outputs :=
  ⟨h.short, h.nulFree, h.apart, hroot.symm ▸ h.fits, hroot.symm ▸ h.room⟩

theorem HoldsEntry.of_root (h : c.HoldsEntry dir id past d) (hroot : c'.root = c.root) :
    c'.HoldsEntry dir id past d := by
  cases past with
  | none => exact h
  | some success => exact ⟨h.1, h.2.1.of_root hroot, h.2.2⟩

theorem HoldsEntry.holds {s : Site ρ} (h : c.HoldsEntry dir id past s.disk)
    (hopen : c.Open dir s.disk) : c.Holds dir id past s :=
  ⟨hopen.registry, hopen.footing, hopen.staging, h⟩

theorem fileName_ne_entryName (id : BuilderId) : fileName ≠ entryName id := by
  intro e
  have hdot : 0x2E ∈ fileName := by decide
  exact OsPath.not_mem_shortHash (by decide) (e ▸ hdot)

theorem fileName_ne_numbered {name : Bytes}
    (h : ∃ n : Nat, name = Disk.numbered ".staging-" n) : fileName ≠ name := by
  obtain ⟨n, rfl⟩ := h
  unfold Disk.numbered
  rw [Bytes.ofText_append]
  intro e
  have htwo := congrArg (List.take 2) e
  rw [List.take_append_of_le_length (by decide)] at htwo
  exact absurd htwo (by decide)

theorem Spares.of_pruned (h : c.Open dir d)
    (hpruned : Disk.Pruned (dir ++ [entryName id]) d d') : c.Spares dir id d d' := by
  have hsingle : [entryName id] ≠ [] := List.cons_ne_nil _ _
  refine ⟨⟨h.registry, h.footing.pruned hsingle hpruned, fun rest => ?_, ?_⟩,
    fun _ hother => hpruned.same hother⟩
  · rw [hpruned.same (stagingName_ne_entryName id)]
    exact h.staging rest
  · exact h.held.congr (at?_of_same (hpruned.same (fileName_ne_entryName id)))

/-! ## Stores -/

theorem read_ofList {files : List (RelativePath × Bytes)}
    (hfiles : MemoryCache.readFiles read outputs.toList = .ok files) {p : RelativePath}
    (hp : p ∈ outputs) {content : Bytes} (hread : read p = .ok content) :
    (Success.mk fp outputs (.ofList files)).read p = .ok content := by
  obtain ⟨hkeys, hcontent⟩ := MemoryCache.get?_ofList_readFiles hfiles
  rw [Success.read_eq_ok]
  have hkey := (hkeys p).2 hp
  rw [SortedMap.mem_keys, SortedMap.contains, Option.isSome_iff_exists] at hkey
  obtain ⟨content', hget⟩ := hkey
  cases (hcontent p content' hget).symm.trans hread
  exact hget

theorem Open.store (h : c.Open dir d) (hentry : c.HoldsEntry dir id past d)
    (hfp : fp.IsPortable) (hout : c.Storable id outputs) {files : List (RelativePath × Bytes)}
    (hfiles : MemoryCache.readFiles read outputs.toList = .ok files) :
    ((c.store id fp outputs read).run d).1 = .ok () ∧
      c.Spares dir id d ((c.store id fp outputs read).run d).2 ∧
      c.HoldsEntry dir id (some ⟨fp, outputs, .ofList files⟩)
        ((c.store id fp outputs read).run d).2 := by
  obtain ⟨encoded, hencode, hdecode⟩ := hfp.encode
  have hread : ∀ p ∈ outputs, ∃ content, read p = .ok content := by
    intro p hp
    obtain ⟨hkeys, hcontent⟩ := MemoryCache.get?_ofList_readFiles hfiles
    have hkey := (hkeys p).2 hp
    rw [SortedMap.mem_keys, SortedMap.contains, Option.isSome_iff_exists] at hkey
    obtain ⟨content, hget⟩ := hkey
    exact ⟨content, hcontent p content hget⟩
  have hholds : c.Holds dir id past (⟨⟨"", ∅⟩, {}, d, ()⟩ : Site Unit) := hentry.holds h
  obtain ⟨hok, hfooting, hstaging, hfiled⟩ :=
    (meets_store_ok h.footing hout h.staging hholds.replaceable hencode hread).run
  obtain ⟨name, hnumbered, hcut⟩ := cut_of_run h.footing id fp outputs read
  refine ⟨hok, ⟨⟨h.registry, hfooting, hstaging, ?_⟩, fun other hother => ?_⟩, hfp, hout, encoded,
    hencode, hdecode, ?_⟩
  · exact h.held.congr
      (at?_of_same (hcut.same (fileName_ne_numbered hnumbered) (fileName_ne_entryName id)))
  · exact hcut.same (ne_entryName_of_numbered hnumbered other).symm hother
  · refine ⟨hfiled.index, hfiled.fingerprint, fun p hp => ?_⟩
    obtain ⟨serial, content, hcontent, hfile⟩ := hfiled.files p hp
    exact ⟨serial, content, read_ofList hfiles hp hcontent, hfile⟩

/-- A store fails with the first output that cannot be read, and no entry changes. -/
theorem Open.store_unread (h : c.Open dir d) (hfp : fp.IsPortable) (hout : c.Storable id outputs)
    {e : FsError} (hread : MemoryCache.readFiles read outputs.toList = .error e) :
    ((c.store id fp outputs read).run d).1 = .error (.artifact id e) ∧
      c.Open dir ((c.store id fp outputs read).run d).2 ∧
      ∀ other, Disk.Same (dir ++ [entryName other]) d ((c.store id fp outputs read).run d).2 := by
  obtain ⟨encoded, hencode, -⟩ := hfp.encode
  obtain ⟨herror, hfooting, hstaging, hsame⟩ :=
    (meets_store_unread h.footing hout h.staging hencode hread).run
  refine ⟨herror, ⟨h.registry, hfooting, hstaging, ?_⟩, fun other => ?_⟩
  · exact h.held.congr (at?_of_same (hsame _ (by decide)))
  · exact hsame _ (stagingName_ne_entryName other).symm

/-! ## Removals -/

theorem Open.remove (h : c.Open dir d) (hentry : c.HoldsEntry dir id past d)
    (hlimits : Disk.WithinLimits c.root [entryName id]) :
    ((c.remove id).run d).1 = .ok past.isSome ∧ c.Spares dir id d ((c.remove id).run d).2 ∧
      c.HoldsEntry dir id none ((c.remove id).run d).2 := by
  have hsingle : [entryName id] ≠ [] := List.cons_ne_nil _ _
  have hat := hentry.at?_entry h.footing
  cases past with
  | none =>
    have hresolve := h.footing.resolve_eq hlimits hsingle (at?_root_entry h.footing id) false
    rw [hat] at hresolve
    have htree : (Disk.removeTree (OsPath.below c.root [entryName id])).Meets d fun result d' =>
        result = .error .missing ∧ d' = d := by
      refine .ask_bind (fun found hfound => ?_) fun e he => by cases hresolve.symm.trans he
      cases hresolve.symm.trans hfound
      exact meets_throw ⟨rfl, rfl⟩
    have hmeets : (c.remove id).Meets d fun result d' => result = .ok false ∧ d' = d := by
      unfold DiskCache.remove
      rw [entryDir_eq]
      refine .attempt_bind htree ?_
      intro result d' ⟨hmissing, hsame⟩
      subst hmissing
      exact meets_pure ⟨rfl, hsame⟩
    obtain ⟨hresult, hsame⟩ := hmeets.run
    rw [hsame]
    exact ⟨hresult, ⟨h, fun _ _ => .refl⟩, hentry⟩
  | some success =>
    have hmeets : (c.remove id).Meets d fun result d' =>
        result = .ok true ∧ Disk.Pruned (dir ++ [entryName id]) d d' := by
      unfold DiskCache.remove
      rw [entryDir_eq]
      refine .attempt_bind (Disk.meets_removeTree_ok h.footing hsingle hlimits hat) ?_
      intro result d' ⟨hok, hpruned⟩
      subst hok
      exact meets_pure ⟨rfl, hpruned⟩
    obtain ⟨hok, hpruned⟩ := hmeets.run
    exact ⟨hok, .of_pruned h hpruned, hpruned.gone⟩

/-! ## Questions -/

/-- The answer is whether the fingerprint is that of what was stored last. -/
theorem answer_eq (h : c.Open dir d) (hentry : c.HoldsEntry dir id past d) :
    c.answer id fp d = past.any (·.fingerprint.agrees fp) := by
  have hholds : c.Holds dir id past (⟨⟨"", ∅⟩, {}, d, ()⟩ : Site Unit) := hentry.holds h
  cases past with
  | none =>
    refine Bool.eq_false_iff.2 fun htrue => ?_
    obtain ⟨stored, hstored, -⟩ := answer_eq_true.1 htrue
    obtain ⟨⟨index, hindex⟩, -⟩ := of_readFingerprint hstored
    obtain ⟨serial, content, -, hfile, -⟩ := at?_of_readIndex h.footing hindex
    cases (hentry [indexName]).symm.trans hfile
  | some success =>
    unfold answer
    rw [hholds.readFingerprint_eq]
    rfl

theorem readIndex_missing (h : c.Open dir d)
    (hlimits : Disk.WithinLimits c.root [entryName id, indexName])
    (hnone : d.at? (dir ++ [entryName id]) = none) : c.readIndex id d = .error (.missing id) := by
  have hpair : [entryName id, indexName] ≠ [] := List.cons_ne_nil _ _
  have hlast : [entryName id, indexName].dropLast = [entryName id] := rfl
  obtain ⟨hsteps, hpath, -⟩ := OsPath.steps_below hlimits.plain h.footing.root_ne_nil hpair
  have hclear : Disk.Clear dir [entryName id, indexName].dropLast d := by
    intro l hl
    rw [hlast] at hl
    rcases List.prefix_cons_iff.1 hl with rfl | ⟨rest, rfl, hrest⟩
    · exact .inr (by rw [List.append_nil, h.footing.at?_dir])
    · rw [List.prefix_nil.1 hrest]
      exact .inl hnone
  have hwalk := h.footing.walk_eq hpair hlimits.short hclear true
  rw [hlast, hnone, if_neg nofun] at hwalk
  have hread : d.read (OsPath.below c.root [entryName id, indexName]) = .error .missing := by
    unfold Disk.read Disk.resolve
    rw [if_neg (hlimits.nulFree h.footing.dirAt_eq), if_neg hpath,
      if_neg (Nat.not_le.2 hlimits.fits), hsteps, hwalk]
    rfl
  have hname : Bytes.ofText "entry.json" = indexName := rfl
  unfold readIndex Disk.readText
  dsimp only
  rw [entryFile_eq, hname, hread]
  rfl

/-- What is handed out of a cache is what was stored last. -/
def handOut (id : BuilderId) (past : Option Success) (target : Directory ρ) (r : ρ) :
    Except CacheError Outputs × ρ :=
  match past with
  | none => (.error (.missing id), r)
  | some success =>
    match target.writeAll success.files.entries r with
    | (.ok (), r) => (.ok success.outputs, r)
    | (.error e, r) => (.error (.artifact id e), r)

theorem readFiles_of_read : ∀ {files : List (RelativePath × Bytes)},
    (∀ e ∈ files, read e.1 = .ok e.2) →
      MemoryCache.readFiles read (files.map Prod.fst) = .ok files
  | [], _ => rfl
  | e :: files, h => by
    obtain ⟨he, hrest⟩ := List.forall_mem_cons.1 h
    rw [List.map_cons, MemoryCache.readFiles, bind_ok he, bind_ok (readFiles_of_read hrest)]
    rfl

theorem restoration_eq (h : c.Open dir d) (hentry : c.HoldsEntry dir id past d)
    (hlimits : Disk.WithinLimits c.root [entryName id, indexName])
    (hkeys : ∀ success ∈ past, success.files.keys = success.outputs.toList)
    (target : Directory ρ) (r : ρ) :
    c.restoration id target d r = handOut id past target r := by
  cases past with
  | none =>
    unfold restoration
    rw [readIndex_missing h hlimits (hentry.at?_entry h.footing)]
    rfl
  | some success =>
    obtain ⟨-, hstorable, encoded, -, -, hfiled⟩ := hentry
    have hkeys := hkeys success rfl
    have hread : MemoryCache.readFiles ((filesIn (c.entryDir id)).read · d)
        success.outputs.toList = .ok success.files.entries := by
      rw [← hkeys]
      refine readFiles_of_read fun e he => ?_
      have hmem : e.1 ∈ success.outputs := by
        rw [← SortedSet.mem_toList, ← hkeys]
        exact List.mem_map_of_mem (f := Prod.fst) he
      rw [hfiled.read_eq h.footing hstorable hmem, Success.read_eq_ok]
      exact (SortedMap.mem_entries_iff _ _ _).1 he
    exact restoration_of_readFiles (hfiled.readIndex_eq h.footing hstorable) hread

/-! ## Closing and opening -/

/-- A cache that is closed can be opened again, and all entries are there. -/
theorem reopen {t : Traced (Site ρ)} (h : c.Open dir d) (hroot : Lockable c.root)
    (hclosed : t.world.disk = c.lock.release d) (process started : Nat) :
    ∃ c' t', openIn Site.diskPart c.root .standard process started t = (.ok c', t') ∧
      c'.root = c.root ∧ c'.Open dir t'.world.disk ∧ t'.world.rest = t.world.rest ∧
      ∀ other, Disk.Same (dir ++ [entryName other]) d t'.world.disk := by
  have hat (q : Place) : (c.lock.release d).at? q = d.at? q := rfl
  have hfooting : t.world.disk.Footing c.root dir := hclosed ▸ h.footing.congr hat
  have hfree : Free dir t.world.disk := hclosed ▸ h.held.free_release
  obtain ⟨c', t', hopened, hheld⟩ := openIn_ok hfooting hroot hfree process started
  obtain ⟨hroot', hregistry, hfooting', hrest, hsame⟩ := of_reopened h.footing hclosed hopened
  refine ⟨c', t', hopened, hroot', ⟨hregistry, hroot' ▸ hfooting', fun rest => ?_,
    hroot' ▸ hheld⟩, hrest, fun other => hsame _ (fileName_ne_entryName other).symm⟩
  rw [hsame _ (by decide)]
  exact h.staging rest

end DiskCache

end Rebuild
