import Rebuild.Proofs.Cache.Archive
import Rebuild.Proofs.Cache.Damage

/-!
# Builders that share a cache on the disk

The entry of a builder lies in a directory that is named by a hash of how the builder
is shown. As long as other builders are shown differently and have other hashes,
nothing that is done for them changes an answer about the builder. Two builders may be
shown alike, and then what is stored of one of them drives out the entry of the other.

* `Reached.others_undisturbed`: what is done for one builder, and the answers about another.
* `DiskCache.evicted`: a store of a builder that is shown alike.
-/
namespace Rebuild
open DiskM DiskOp

namespace DiskCache

variable {ρ : Type} {root : OsPath} {dir : Place} {c : DiskCache} {t : Traced (Site ρ)}
  {ids : List BuilderId} {a b : BuilderId} {fp : Fingerprint} {outputs : Outputs}
  {source : Directory (Site ρ)}

/-- A store for another builder leaves the answers as they are, however it ends. -/
theorem agrees_after_store (h : t.world.disk.Footing c.root dir)
    (hname : entryName b ≠ entryName a) (fp : Fingerprint) (outputs : Outputs)
    (source : Directory (Site ρ)) :
    Cache.Agrees (cache Site.diskPart c) (cache Site.diskPart c) b t.world
      ((cache Site.diskPart c).store a fp outputs source t).2.world := by
  obtain ⟨-, hworld⟩ := store_eq c a fp outputs source t
  obtain ⟨name, hnumbered, hcut⟩ := cut_of_run h a fp outputs (source.read · t.world)
  rw [hworld]
  exact agrees_of_same rfl rfl h hcut.footing
    (hcut.same (ne_entryName_of_numbered hnumbered b).symm hname) rfl

theorem agrees_after_remove (h : t.world.disk.Footing c.root dir)
    (hname : entryName b ≠ entryName a) :
    Cache.Agrees (cache Site.diskPart c) (cache Site.diskPart c) b t.world
      (Site.diskPart.change (c.remove a).run t.world).2 := by
  have hremoved := (meets_remove_entry h a).run
  rw [Site.change_disk]
  generalize (c.remove a).run t.world.disk = removed at hremoved ⊢
  rcases hremoved with ⟨-, hsame⟩ | ⟨-, -, hpruned⟩
  · exact agrees_of_same rfl rfl h (hsame ▸ h) (hsame ▸ .refl) rfl
  · exact agrees_of_same rfl rfl h (h.pruned (List.cons_ne_nil _ _) hpruned) (hpruned.same hname)
      rfl

/-! ## Builders that are shown alike -/

/-- When something is stored of a builder that is shown alike, the index is that of the other. -/
theorem readIndex_ne_ok {read : RelativePath → Except FsError Bytes} {d : Disk}
    (h : d.Footing c.root dir) (hne : a ≠ b) (htext : a.text = b.text)
    (hok : ((c.store a fp outputs read).run d).1 = .ok ()) (index : EntryIndex) :
    c.readIndex b ((c.store a fp outputs read).run d).2 ≠ .ok index := by
  intro hindex
  have hname : entryName a = entryName b := by
    unfold entryName
    rw [htext]
  obtain ⟨name, -, hcut⟩ := cut_of_run h a fp outputs read
  generalize (c.store a fp outputs read).run d = stored at hok hindex hcut
  rcases hcut.entry with ⟨hnot, -⟩ | ⟨-, encoded, -, hfiled⟩
  · exact hnot hok
  · rw [hname] at hfiled
    obtain ⟨-, -, -, hbuilder⟩ := of_readIndex hindex
    rw [hfiled.index_eq hcut.footing hindex] at hbuilder
    exact hne hbuilder

theorem evicted {t' : Traced (Site ρ)} (h : t.world.disk.Footing c.root dir) (hne : a ≠ b)
    (htext : a.text = b.text)
    (hstored : (cache Site.diskPart c).store a fp outputs source t = (.ok (), t')) :
    (∀ fp, ((cache Site.diskPart c).contains b fp t').1 = false) ∧ ∀ target outputs,
      ((cache Site.diskPart c).restore b (Site.elsewhere target) t').1 ≠ .ok outputs := by
  obtain ⟨hresult, hworld⟩ := store_eq c a fp outputs source t
  rw [hstored] at hresult hworld
  have hdisk := congrArg Site.disk hworld
  have hindex := readIndex_ne_ok h hne htext hresult.symm
  dsimp only at hdisk
  rw [← hdisk] at hindex
  cases hread : c.readIndex b t'.world.disk with
  | ok index => exact absurd hread (hindex index)
  | error e =>
    refine ⟨fun fp => ?_, fun target outputs hrestored => ?_⟩
    · rw [(contains_eq _ c b fp _).1]
      exact answer_of_readIndex_error hread fp
    · rw [(restore_eq c b target _).1] at hrestored
      obtain ⟨index, -, hfound, -⟩ := of_restoration hrestored
      exact hindex index hfound

/-- While the cache is open, it takes what is stored of a builder that is shown alike. -/
theorem store_alike {past : Option Success} {d : Disk}
    (h : c.Open dir d) (hentry : c.HoldsEntry dir b past d) (htext : a.text = b.text)
    (hfp : fp.IsPortable) (hout : c.Storable a outputs) {read : RelativePath → Except FsError Bytes}
    (hread : ∀ p ∈ outputs, ∃ content, read p = .ok content) :
    ((c.store a fp outputs read).run d).1 = .ok () := by
  obtain ⟨encoded, hencode, -⟩ := hfp.encode
  have hname : entryName a = entryName b := by
    unfold entryName
    rw [htext]
  have hplace := hentry.replaceable h.footing hname
  exact (meets_store_ok h.footing hout h.staging hplace hencode hread).run.1

/-! ## What is done for others -/

/-- As long as the hash tells apart how builders are shown: what is done for a builder that is shown
differently changes no answer, and an entry is removed only if something was stored of a builder
that is shown alike. -/
theorem Reached.others_undisturbed (h : Reached root dir c t.world ids)
    (hhash : ∀ id ∈ a :: ids, shortHash id.text = shortHash b.text → id.text = b.text) :
    (a.text ≠ b.text →
      (∀ fp outputs source, Cache.Agrees (cache Site.diskPart c) (cache Site.diskPart c) b t.world
        ((cache Site.diskPart c).store a fp outputs source t).2.world) ∧
      Cache.Agrees (cache Site.diskPart c) (cache Site.diskPart c) b t.world
        (Site.diskPart.change (c.remove a).run t.world).2) ∧
    ((Site.diskPart.change (c.remove b).run t.world).1 = .ok true →
      ∃ id ∈ ids, id.text = b.text) := by
  have hkept := h.kept
  have htext (id : BuilderId) (hid : id ∈ a :: ids) (hname : entryName b = entryName id) :
      id.text = b.text := hhash id hid (Bytes.ofText_injective hname).symm
  refine ⟨fun hne => ?_, fun hremoved => ?_⟩
  · have hname : entryName b ≠ entryName a := fun e => hne (htext a List.mem_cons_self e)
    exact ⟨agrees_after_store hkept.footing_root hname,
      agrees_after_remove hkept.footing_root hname⟩
  · have hmeets := (meets_remove_entry hkept.footing_root b).run
    rw [Site.change_disk] at hremoved
    generalize (c.remove b).run t.world.disk = removed at hremoved hmeets
    rcases hmeets with ⟨hnot, -⟩ | ⟨-, hdir, -⟩
    · exact absurd hremoved hnot
    · have hdot : 0x2E ∉ entryName b := OsPath.not_mem_shortHash (by decide)
      obtain ⟨id, hid, hentry⟩ :=
        hkept.entries _ hdot (by rw [hdir]; exact Option.some_ne_none _)
      exact ⟨id, hid, htext id (List.mem_cons_of_mem a hid) hentry⟩

end DiskCache

/-! ## A directory of stamps -/

namespace Stamp
open DiskCache

theorem exists_stored {id : BuilderId} {outputs : Outputs} {files : List (RelativePath × Bytes)}
    (hout : cache.Storable id outputs)
    (hfiles : MemoryCache.readFiles (source.read · (shelf path).rest) outputs.toList = .ok files) :
    ∃ (c : DiskCache) (t : Traced (Site MemoryDirectory)), c.root = cache.root ∧
      Reached cache.root vault c t.world [id] ∧ c.Open vault t.world.disk ∧
      c.HoldsEntry vault id (some ⟨.empty, outputs, .ofList files⟩) t.world.disk ∧
      t.world.rest = (shelf path).rest := by
  obtain ⟨hregistry, hfooting, hstaging, hentry⟩ := Storage.Fresh.holds (fresh_shelf path) id
  have hopen : cache.Open vault disk := ⟨hregistry, hfooting, hstaging, held_shelf⟩
  let closed : Traced (Site MemoryDirectory) :=
    ⟨{ shelf path with disk := cache.lock.release disk }, []⟩
  obtain ⟨c, t, hopened, hroot, hopen', hrest, hsame⟩ :=
    reopen (t := closed) hopen lockable_root rfl 7 8
  have hreached : Reached cache.root vault c t.world [] :=
    .of_flat (t := closed) (hfooting.congr fun _ => rfl).dirAt_eq (fresh_shelf path).2.2 hopened
      (hroot ▸ hopen'.held)
  have hfiles : MemoryCache.readFiles ((Site.elsewhere source).read · t.world) outputs.toList =
      .ok files := by
    show MemoryCache.readFiles (source.read · t.world.rest) _ = _
    rw [hrest]
    exact hfiles
  obtain ⟨hok, hspares, hstored⟩ := hopen'.store ((hentry.of_same (hsame id)).of_root hroot)
    Tally.isPortable_empty (hout.of_root hroot) hfiles
  obtain ⟨hresult, hworld⟩ := store_eq c id .empty outputs (Site.elsewhere source) t
  refine ⟨c,
    ((DiskCache.cache Site.diskPart c).store id .empty outputs (Site.elsewhere source) t).2,
    hroot, hreached.stored (hresult.trans hok), ?_, ?_, ?_⟩
  · rw [hworld]
    exact hspares.stays
  · rw [hworld]
    exact hstored
  · rw [hworld]
    exact hrest

/-- What is done for another builder, while something of the first is stored. -/
theorem apart_other :
    let other : BuilderId := ⟨"b", "other"⟩
    ∃ (c : DiskCache) (t : Traced (Site MemoryDirectory)),
      Reached cache.root vault c t.world [builderId] ∧
      ((DiskCache.cache Site.diskPart c).contains builderId .empty t).1 = true ∧
      (∀ fp outputs source, Cache.Agrees (DiskCache.cache Site.diskPart c)
        (DiskCache.cache Site.diskPart c) builderId t.world
        ((DiskCache.cache Site.diskPart c).store other fp outputs source t).2.world) ∧
      Cache.Agrees (DiskCache.cache Site.diskPart c) (DiskCache.cache Site.diskPart c) builderId
        t.world (Site.diskPart.change (c.remove other).run t.world).2 := by
  intro other
  obtain ⟨c, t, -, hreached, hopen, hentry, -⟩ := exists_stored (storable_nothing builderId) rfl
  have hdiffers : shortHash other.text ≠ shortHash builderId.text := by decide +kernel
  have hhash : ∀ id ∈ [other, builderId],
      shortHash id.text = shortHash builderId.text → id.text = builderId.text :=
    List.forall_mem_cons.2 ⟨fun heq => absurd heq hdiffers,
      List.forall_mem_singleton.2 fun _ => rfl⟩
  obtain ⟨hapart, -⟩ := Reached.others_undisturbed hreached hhash
  obtain ⟨hstore, hremove⟩ := hapart (by decide)
  refine ⟨c, t, hreached, ?_, hstore, hremove⟩
  rw [(contains_eq _ c builderId _ t).1]
  exact answer_eq hopen hentry

/-- Two builders that differ and are shown alike: when something of the second is stored, the first
is not found any more. -/
theorem evicted_alike :
    let first : BuilderId := ⟨"a", "b:c"⟩
    let second : BuilderId := ⟨"a:b", "c"⟩
    ∃ (c : DiskCache) (t : Traced (Site MemoryDirectory)), first ≠ second ∧
      Reached cache.root vault c t.world [first] ∧
      ((DiskCache.cache Site.diskPart c).contains first .empty t).1 = true ∧
      ((DiskCache.cache Site.diskPart c).contains first .empty
        ((DiskCache.cache Site.diskPart c).store second .empty ∅ (Site.elsewhere source) t).2).1 =
          false := by
  intro first second
  obtain ⟨c, t, hroot, hreached, hopen, hentry, hrest⟩ :=
    exists_stored (storable_nothing first) rfl
  refine ⟨c, t, by decide, hreached, ?_, ?_⟩
  · rw [(contains_eq _ c first _ t).1]
    exact answer_eq hopen hentry
  · have hread : ∀ p ∈ (∅ : Outputs),
        ∃ content, (Site.elsewhere source).read p t.world = .ok content :=
      fun _ hp => absurd hp (SortedSet.not_mem_empty _)
    have hok := store_alike hopen hentry (show second.text = first.text from rfl)
      Tally.isPortable_empty ((storable_nothing second).of_root hroot) hread
    have hstored := (store_eq c second .empty ∅ (Site.elsewhere source) t).1.trans hok
    generalize heq : (DiskCache.cache Site.diskPart c).store second .empty ∅
      (Site.elsewhere source) t = stored at hstored ⊢
    obtain ⟨result, t'⟩ := stored
    cases hstored
    have hne : second ≠ first := by decide
    exact (evicted hopen.footing hne rfl heq).1 .empty

end Stamp

end Rebuild
