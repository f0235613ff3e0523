import Rebuild.Proofs.Cache.Apart

/-!
# What is handed out after a crash

A program may stop at any moment of a store. When the cache is opened again, what it
hands out of the entry is what it would have handed out before, or what was stored,
and never some of each: an entry that has lost pieces hands out all that it is asked
for or nothing, and a directory in which an entry is put together is none.

* `DiskCache.HandsOut`: what is found and restored.
* `HandsOut.of_shrunk`: an entry that has lost pieces hands out nothing new.
* `HandsOut.of_filed`: a new entry hands out what was stored.
* `Reached.old_or_new`: what is handed out after a store that was cut short.
-/
namespace Rebuild
open DiskM DiskOp

namespace DiskCache

variable {ρ : Type} {c c' : DiskCache} {root : OsPath} {dir : Place} {id : BuilderId}
  {fp : Fingerprint} {target : Directory ρ} {outputs : Outputs} {r : ρ} {t t' : Traced (Site ρ)}
  {d d' : Disk}

/-! ## Handing out -/

/-- There is a hit, and the outputs are restored. The target is then the given one. -/
structure HandsOut (c : DiskCache) (id : BuilderId) (fp : Fingerprint) (target : Directory ρ)
    (t : Traced (Site ρ)) (outputs : Outputs) (r : ρ) : Prop where
  hit : ((cache Site.diskPart c).contains id fp t).1 = true
  restored : ((cache Site.diskPart c).restore id (Site.elsewhere target) t).1 = .ok outputs
  rest : ((cache Site.diskPart c).restore id (Site.elsewhere target) t).2.world.rest = r

/-- What is handed out was read from the entry. -/
structure Found (c : DiskCache) (id : BuilderId) (fp : Fingerprint) (d : Disk) (outputs : Outputs)
    (files : List (RelativePath × Bytes)) : Prop where
  index : ∃ index, c.readIndex id d = .ok index ∧ outputs = index.files
  fingerprint : ∃ stored, c.readFingerprint id d = .ok stored ∧ stored.agrees fp = true
  files : MemoryCache.readFiles ((filesIn (c.entryDir id)).read · d) outputs.toList = .ok files

theorem handsOut_iff : HandsOut c id fp target t outputs r ↔
    ∃ files, c.Found id fp t.world.disk outputs files ∧
      target.writeAll files t.world.rest = (.ok (), r) := by
  obtain ⟨hrestored, hworld⟩ := restore_eq c id target t
  constructor
  · intro ⟨hhit, hok, hrest⟩
    rw [(contains_eq _ c id fp t).1] at hhit
    rw [hrestored] at hok
    rw [hworld] at hrest
    dsimp only at hrest
    obtain ⟨index, files, hindex, houtputs, hfiles, hwritten, hmade⟩ := of_restoration hok
    rw [hmade] at hrest
    exact ⟨files, ⟨⟨index, hindex, houtputs⟩, answer_eq_true.1 hhit, hfiles⟩,
      Prod.ext hwritten hrest⟩
  · intro ⟨files, ⟨⟨index, hindex, houtputs⟩, hfingerprint, hfiles⟩, hwritten⟩
    subst houtputs
    refine ⟨?_, ?_, ?_⟩
    · rw [(contains_eq _ c id fp t).1]
      exact answer_eq_true.2 hfingerprint
    · rw [hrestored, restoration_of_readFiles hindex hfiles, hwritten]
    · rw [hworld, restoration_of_readFiles hindex hfiles, hwritten]

/-! ## The old entry -/

/-- An index and files that are read from an entry that has lost pieces could be read before. -/
theorem Found.of_shrunk {files : List (RelativePath × Bytes)} (hroot : c'.root = c.root)
    (hregistry : c'.registry = c.registry) (h : d.Footing c.root dir) (h' : d'.Footing c.root dir)
    (hshrunk : Disk.Shrunk (dir ++ [entryName id]) d d')
    (hfound : c'.Found id fp d' outputs files) :
    c.Found id fp d outputs files := by
  have hdir : c'.entryDir id = c.entryDir id := by
    unfold entryDir
    rw [hroot]
  have hread {names : List Bytes} (hnames : ∀ name ∈ names, OsPath.IsName name) {content : Bytes}
      (hcontent : d'.read (OsPath.below c.root (entryName id :: names)) = .ok content) :
      d.read (OsPath.below c.root (entryName id :: names)) = .ok content :=
    h.read_of_shrunk h' hshrunk (List.forall_mem_cons.2 ⟨isName_entryName id, hnames⟩) hcontent
  have hindex {index : EntryIndex} (hindex : c'.readIndex id d' = .ok index) :
      c.readIndex id d = .ok index := by
    obtain ⟨⟨text, htext, hofText⟩, hindex⟩ := readIndex_eq_ok_iff.1 hindex
    refine readIndex_eq_ok_iff.2 ⟨⟨text, ?_, hofText⟩, hindex⟩
    obtain ⟨content, hcontent, htext⟩ := Disk.text?_of_readText htext
    rw [hdir, entryFile_eq] at hcontent
    have hcontent := hread (List.forall_mem_singleton.2 isName_indexName) hcontent
    unfold Spelled
    rw [entryFile_eq]
    exact readText_of_read hcontent htext
  obtain ⟨⟨index, hfoundIndex, houtputs⟩, ⟨stored, hstored, hagrees⟩, hfiles⟩ := hfound
  refine ⟨⟨index, hindex hfoundIndex, houtputs⟩, ⟨stored, ?_, hagrees⟩, ?_⟩
  · obtain ⟨-, encoded, hencoded, hdecode⟩ := of_readFingerprint hstored
    rw [hdir, entryFile_eq] at hencoded
    have hencoded := hread (List.forall_mem_singleton.2 isName_fingerprintName) hencoded
    refine readFingerprint_eq (hindex hfoundIndex) ?_ (hregistry ▸ hdecode)
    rw [entryFile_eq]
    exact hencoded
  · obtain ⟨hkeys, hcontent⟩ := MemoryCache.readFiles_eq hfiles
    rw [← hkeys]
    refine readFiles_of_read fun e he => ?_
    have hcontent : d'.read (e.1.under (filesIn (c'.entryDir id)).root) = .ok e.2 :=
      ok_of_mapError (hcontent e.1 e.2 he)
    rw [under_filesIn, hroot] at hcontent
    have hcontent := hread (isName_filePlace e.1) hcontent
    rw [← under_filesIn] at hcontent
    exact mapError_ok _ hcontent

/-! ## The new entry -/

/-- What was found is what was stored: the outputs, with the contents that were read for them, and
the fingerprint as it is read back. -/
structure StoredAnew (stored : Fingerprint) (outputs : Outputs)
    (read : RelativePath → Except FsError Bytes) (fp : Fingerprint) (found : Outputs)
    (files : List (RelativePath × Bytes)) : Prop where
  found_eq : found = outputs
  fingerprint : ∃ encoded back, stored.encode = .ok encoded ∧
    Registry.standard.decode encoded = .ok back ∧ back.agrees fp = true
  builtIn : stored.isBuiltIn = true → stored.agrees fp = true
  files : MemoryCache.readFiles read outputs.toList = .ok files

theorem Found.of_filed {stored : Fingerprint} {encoded : Bytes} {found : Outputs}
    {read : RelativePath → Except FsError Bytes} {files : List (RelativePath × Bytes)}
    (hregistry : c.registry = .standard) (h : d.Footing c.root dir)
    (hencode : stored.encode = .ok encoded)
    (hfiled : Filed d (dir ++ [entryName id]) id encoded outputs read)
    (hfound : c.Found id fp d found files) : StoredAnew stored outputs read fp found files := by
  obtain ⟨⟨index, hindex, rfl⟩, ⟨back, hback, hagrees⟩, hfiles⟩ := hfound
  have hdecode := hfiled.decode_eq h hback
  rw [hregistry] at hdecode
  rw [hfiled.index_eq h hindex] at hfiles ⊢
  refine ⟨rfl, ⟨encoded, back, hencode, hdecode, hagrees⟩, fun hbuiltIn => ?_, ?_⟩
  · exact Workshop.eq_of_decode hbuiltIn hencode hdecode ▸ hagrees
  · obtain ⟨hkeys, hcontent⟩ := MemoryCache.readFiles_eq hfiles
    rw [← hkeys]
    refine readFiles_of_read fun e he => ?_
    have hmem : e.1 ∈ outputs := by
      rw [← SortedSet.mem_toList, ← hkeys]
      exact List.mem_map_of_mem (f := Prod.fst) he
    exact hfiled.read_of_read h hmem (hcontent e.1 e.2 he)

/-! ## Stores that are cut short -/

theorem Open.openIn_cut (h : c.Open dir t.world.disk) (hroot : CacheLock.Lockable c.root)
    {read : RelativePath → Except FsError Bytes} {ops ops' : List DiskOp}
    (hsequence : Resequenced (dir ++ [entryName id])
      ((c.store id fp outputs read).changes t.world.disk) ops')
    (hops : ops <+: ops') {stopped : Traced (Site ρ)} (hreleased : stopped.world =
      { t.world with disk := c.lock.release (applyAll ops t.world.disk) }) (process started : Nat) :
    ∃ c' t', openIn Site.diskPart c.root .standard process started stopped = (.ok c', t') := by
  obtain ⟨name, hnumbered, hcut⟩ := cut_store h.footing hsequence hops
  have hheld : CacheLock.Held c.root dir c.lock (applyAll ops t.world.disk) :=
    h.held.congr (at?_of_same
      (hcut.same (fileName_ne_numbered hnumbered) (fileName_ne_entryName id)))
  have hfooting : stopped.world.disk.Footing c.root dir := by
    rw [hreleased]
    exact hcut.footing.congr fun _ => rfl
  have hfree : CacheLock.Free dir stopped.world.disk := by
    rw [hreleased]
    exact hheld.free_release
  obtain ⟨c', t', hopened, -⟩ := openIn_ok hfooting hroot hfree process started
  exact ⟨c', t', hopened⟩

/-- Wherever a store is cut short, and in whatever order the old entry is removed: what is handed
out when the cache is opened again was handed out before, or it is what was stored, if nothing was
cut off. The answers about builders with other entries are as before. -/
theorem Reached.old_or_new {ids : List BuilderId} (h : Reached root dir c t.world ids)
    {stored : Fingerprint} {source : Directory (Site ρ)} {ops ops' : List DiskOp}
    (hsequence : Resequenced (dir ++ [entryName id])
      ((c.store id stored outputs (source.read · t.world)).changes t.world.disk) ops')
    (hops : ops <+: ops') {stopped : Traced (Site ρ)} {process started : Nat}
    (hreleased : stopped.world =
      { t.world with disk := c.lock.release (applyAll ops t.world.disk) })
    (hopened : openIn Site.diskPart root .standard process started stopped = (.ok c', t')) :
    (∀ fp (target : Directory ρ) found r, HandsOut c' id fp target t' found r →
      HandsOut c id fp target t found r ∨
      ops = ops' ∧ ∃ files, StoredAnew stored outputs (source.read · t.world) fp found files ∧
        target.writeAll files t.world.rest = (.ok (), r)) ∧
    ∀ other, entryName other ≠ entryName id → Cache.Agrees (cache Site.diskPart c)
      (cache Site.diskPart c') other t.world t'.world := by
  have hkept := h.kept
  obtain ⟨name, hnumbered, hcut⟩ := cut_store hkept.footing_root hsequence hops
  obtain ⟨hroot, hregistry, hfooting, hrest, hothers⟩ :=
    of_reopened (hkept.root_eq ▸ hcut.footing) (congrArg Site.disk hreleased) hopened
  have hroot : c'.root = c.root := hroot.trans hkept.root_eq.symm
  have hregistry' : c'.registry = c.registry := hregistry.trans hkept.registry.symm
  have hfooting : t'.world.disk.Footing c.root dir := hkept.root_eq.symm ▸ hfooting
  have hrest : t'.world.rest = t.world.rest := by rw [hrest, hreleased]
  have hsame (other : BuilderId) := hothers _ (fileName_ne_entryName other).symm
  refine ⟨fun fp target found r hands => ?_, fun other hother => ?_⟩
  · obtain ⟨files, hfound, hwritten⟩ := handsOut_iff.1 hands
    rw [hrest] at hwritten
    rcases hcut.entry with ⟨-, hshrunk⟩ | ⟨⟨hall, -⟩, encoded, hencode, hfiled⟩
    · exact .inl (handsOut_iff.2 ⟨files, hfound.of_shrunk hroot hregistry' hkept.footing_root
        hfooting (hshrunk.trans (hsame id).shrunk), hwritten⟩)
    · exact .inr ⟨hall, files, hfound.of_filed hregistry (hroot ▸ hfooting) hencode
        (hfiled.congr (hsame id)), hwritten⟩
  · exact agrees_of_same hroot hregistry' hkept.footing_root hfooting
      ((hcut.same (ne_entryName_of_numbered hnumbered other).symm hother).trans (hsame other)) hrest

end DiskCache

/-! ## A directory of stamps -/

namespace Stamp
open DiskCache

/-- A stamp was stored, and a store that follows is cut short anywhere: the cache can be opened
again, and hands out the stamp, or what was stored after it, or nothing. -/
theorem old_or_new_anywhere : ∃ (c : DiskCache) (t : Traced (Site MemoryDirectory)),
    Reached cache.root vault c t.world [builderId] ∧
    ((DiskCache.cache Site.diskPart c).contains builderId .empty t).1 = true ∧
    let read := ((Site.elsewhere source).read · t.world)
    let changes := (c.store builderId (print true) ∅ read).changes t.world.disk
    ∀ k, ∃ c' t', openIn Site.diskPart cache.root .standard 7 8
        ⟨{ t.world with disk := c.lock.release (applyAll (changes.take k) t.world.disk) }, []⟩ =
          (.ok c', t') ∧
      ∀ fp target found r, HandsOut c' builderId fp target t' found r →
        HandsOut c builderId fp target t found r ∨
        changes.take k = changes ∧ ∃ files, StoredAnew (print true) ∅ read fp found files ∧
          target.writeAll files t.world.rest = (.ok (), r) := by
  obtain ⟨c, t, hroot, hreached, hopen, hentry, -⟩ :=
    exists_stored Tally.storable_stamp (readFiles_shelf path)
  refine ⟨c, t, hreached, ?_, ?_⟩
  · rw [(contains_eq _ c builderId _ t).1]
    exact answer_eq hopen hentry
  · intro read changes k
    have hsequence : Resequenced (vault ++ [entryName builderId]) changes changes := by
      obtain ⟨⟨name, first, places, last, heq, hcourse⟩, -⟩ :=
        (traces_store hopen.footing builderId (print true) ∅ read).run
      show Resequenced _ (DiskM.changes _ _) (DiskM.changes _ _)
      rw [heq]
      exact hcourse.resequenced_self
    have hcut := List.take_prefix k changes
    let stopped : Traced (Site MemoryDirectory) :=
      ⟨{ t.world with disk := c.lock.release (applyAll (changes.take k) t.world.disk) }, []⟩
    have hreleased : stopped.world =
      { t.world with disk := c.lock.release (applyAll (changes.take k) t.world.disk) } := rfl
    obtain ⟨c', t', hopened⟩ :=
      hopen.openIn_cut (hroot ▸ lockable_root) hsequence hcut hreleased 7 8
    rw [hroot] at hopened
    obtain ⟨hhands, -⟩ := Reached.old_or_new hreached hsequence hcut hreleased hopened
    exact ⟨c', t', hopened, hhands⟩

end Stamp

end Rebuild
