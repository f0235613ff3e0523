import Rebuild.Proofs.Cache.Entry
import Rebuild.Proofs.Cache.OnDisk
import Rebuild.Proofs.Fingerprint.RoundTrip
import Rebuild.Proofs.Incremental.Cached

/-!
# Caches on the disk can be trusted

Every entry that has an index was made of a product: its index names the builder
and the outputs, and what else it holds is the encoded fingerprint and contents of
the product. Entries of two builders may share a directory; the index tells whose
it is. A hit means that the fingerprint which is read back agrees, so it is the
same, and what is copied out is what the builder would make.

* `Filed.index_eq`, `Filed.decode_eq`, `Filed.read_of_read`: what can be read was stored.
* `DiskCache.store_eq`, `DiskCache.of_openIn`: actions on a site, told from the disk.
* `Workshop.BacksOnDisk`: an entry that was made of a product.
* `Workshop.KeptOnDisk`: all entries were.
* `trusts_disk`: the cache hands out such entries only, and stores no others.
* `KeptOnDisk.thinned`, `KeptOnDisk.taken`: removals and reopening do no harm.
-/
namespace Rebuild

/-! ## Reading files of an entry -/

namespace Disk

variable {d : Disk} {root : OsPath} {dir : Place} {names : List Bytes}

theorem Footing.at?_of_read (h : d.Footing root dir) (hnames : ∀ name ∈ names, OsPath.IsName name)
    (hne : names ≠ []) {content : Bytes} (hread : d.read (OsPath.below root names) = .ok content) :
    ∃ serial, d.at? (dir ++ names) = some (.file serial content) := by
  obtain ⟨found, hresolve, hread⟩ := ok_of_bind hread
  obtain ⟨rfl, -⟩ := h.resolve_below hnames hne hresolve
  dsimp only at hread
  split at hread
  next serial content heq => cases hread; exact ⟨serial, heq⟩
  next => cases hread
  next => cases hread

theorem text?_of_readText {p : OsPath} {s : String} (h : d.readText p = .ok s) :
    ∃ content, d.read p = .ok content ∧ content.text? = some s := by
  obtain ⟨content, hread, h⟩ := ok_of_bind h
  refine ⟨content, hread, ?_⟩
  split at h
  next heq => cases h; exact heq
  next => cases h

end Disk

namespace DiskCache

variable {c : DiskCache} {d : Disk} {id : BuilderId}

theorem of_readIndex {index : EntryIndex} (h : c.readIndex id d = .ok index) :
    ∃ text, d.readText ((c.entryDir id).child "entry.json") = .ok text ∧
      EntryIndex.ofText? text = some index ∧ index.builder = id := by
  unfold readIndex at h
  dsimp only at h
  obtain ⟨text, hread, hindex⟩ := ok_of_bind h
  have hindex := ok_of_mapError hindex
  unfold EntryIndex.read at hindex
  refine ⟨text, ok_of_mapError hread, ?_⟩
  split at hindex
  · cases hindex
  next found heq =>
    split at hindex
    · cases hindex
    · split at hindex
      · cases hindex
      next hbuilder =>
        cases hindex
        exact ⟨heq, Decidable.not_not.1 hbuilder⟩

theorem of_readFingerprint {fp : Fingerprint} (h : c.readFingerprint id d = .ok fp) :
    (∃ index, c.readIndex id d = .ok index) ∧
      ∃ encoded, d.read ((c.entryDir id).child "fingerprint.bin") = .ok encoded ∧
        c.registry.decode encoded = .ok fp := by
  unfold readFingerprint at h
  dsimp only at h
  obtain ⟨_, hindex, h⟩ := ok_of_bind h
  obtain ⟨encoded, hread, h⟩ := ok_of_bind h
  refine ⟨?_, encoded, ok_of_mapError hread, ok_of_mapError h⟩
  cases h : c.readIndex id d with
  | ok index => exact ⟨index, rfl⟩
  | error e => rw [h] at hindex; cases hindex

theorem at?_of_read_entry {dir : Place} {names : List Bytes} {content : Bytes}
    (h : d.Footing c.root dir) (hnames : ∀ name ∈ names, OsPath.IsName name)
    (hread : d.read (OsPath.below c.root (entryName id :: names)) = .ok content) :
    ∃ serial, d.at? (dir ++ [entryName id] ++ names) = some (.file serial content) := by
  rw [← List.append_cons]
  exact h.at?_of_read (List.forall_mem_cons.2 ⟨isName_entryName id, hnames⟩)
    (List.cons_ne_nil _ _) hread

theorem at?_of_readIndex {dir : Place} {index : EntryIndex} (h : d.Footing c.root dir)
    (hindex : c.readIndex id d = .ok index) :
    ∃ serial content text, d.at? (dir ++ [entryName id] ++ [indexName]) =
        some (.file serial content) ∧
      content.text? = some text ∧ EntryIndex.ofText? text = some index := by
  obtain ⟨text, htext, hofText, -⟩ := of_readIndex hindex
  obtain ⟨content, hread, htext⟩ := Disk.text?_of_readText htext
  rw [entryFile_eq] at hread
  obtain ⟨serial, hfile⟩ := at?_of_read_entry h (List.forall_mem_singleton.2 isName_indexName) hread
  exact ⟨serial, content, text, hfile, htext, hofText⟩

section Filed

variable {dir : Place} {owner : BuilderId} {encoded : Bytes} {outputs : Outputs}
  {read : RelativePath → Except FsError Bytes}

/-- An index that is read is the one that was stored in the entry, for whichever builder. -/
theorem Filed.index_eq (hfiled : Filed d (dir ++ [entryName id]) owner encoded outputs read)
    (h : d.Footing c.root dir) {index : EntryIndex} (hindex : c.readIndex id d = .ok index) :
    index = ⟨EntryIndex.currentVersion, owner, outputs⟩ := by
  obtain ⟨serial, hfile⟩ := hfiled.index
  obtain ⟨serial', content, text, hfile', htext, hofText⟩ := at?_of_readIndex h hindex
  cases hfile.symm.trans hfile'
  rw [Bytes.text?_ofText] at htext
  cases htext
  rw [EntryIndex.ofText?_text (show EntryIndex.currentVersion < Nat.pow 2 32 by decide)] at hofText
  exact (Option.some.inj hofText).symm

theorem Filed.decode_eq (hfiled : Filed d (dir ++ [entryName id]) owner encoded outputs read)
    (h : d.Footing c.root dir) {stored : Fingerprint}
    (hstored : c.readFingerprint id d = .ok stored) : c.registry.decode encoded = .ok stored := by
  obtain ⟨-, encoded', hread, hdecode⟩ := of_readFingerprint hstored
  rw [entryFile_eq] at hread
  obtain ⟨serial, hfile⟩ :=
    at?_of_read_entry h (List.forall_mem_singleton.2 isName_fingerprintName) hread
  obtain ⟨serial', hfile'⟩ := hfiled.fingerprint
  cases hfile.symm.trans hfile'
  exact hdecode

theorem Filed.read_of_read (hfiled : Filed d (dir ++ [entryName id]) owner encoded outputs read)
    (h : d.Footing c.root dir) {p : RelativePath} (hp : p ∈ outputs) {content : Bytes}
    (hread : (filesIn (c.entryDir id)).read p d = .ok content) : read p = .ok content := by
  have hread : d.read (p.under (filesIn (c.entryDir id)).root) = .ok content :=
    ok_of_mapError hread
  rw [under_filesIn] at hread
  obtain ⟨serial, hfile⟩ := at?_of_read_entry h (isName_filePlace p) hread
  obtain ⟨serial', content', hcontent, hfile'⟩ := hfiled.files p hp
  cases hfile.symm.trans hfile'
  exact hcontent

end Filed

/-! ## Actions on a site -/

variable {ρ : Type}

theorem store_eq (c : DiskCache) (id : BuilderId) (fp : Fingerprint) (outputs : Outputs)
    (source : Directory (Site ρ)) (t : Traced (Site ρ)) :
    ((cache Site.diskPart c).store id fp outputs source t).1 =
        ((c.store id fp outputs (source.read · t.world)).run t.world.disk).1 ∧
      ((cache Site.diskPart c).store id fp outputs source t).2.world =
        { t.world with
          disk := ((c.store id fp outputs (source.read · t.world)).run t.world.disk).2 } := by
  have hget : (get : Action (Site ρ) _) t = (t, t) := rfl
  have hpart : Site.diskPart.get t.world = t.world.disk := rfl
  unfold cache
  simp only [Action.bind_apply, hget, Action.change_apply, Part.change, hpart]
  generalize (c.store id fp outputs (source.read · t.world)).run t.world.disk = ran
  obtain ⟨result, d'⟩ := ran
  cases result <;> exact ⟨rfl, rfl⟩

theorem of_openIn {root : OsPath} {t t' : Traced (Site ρ)} {process started : Nat}
    {opened : Except CacheError DiskCache}
    (hopened : openIn Site.diskPart root .standard process started t = (opened, t')) :
    t'.world = { t.world with
        disk := ((CacheLock.acquire root ⟨holderName, process, started⟩).run t.world.disk).2 } ∧
      ∀ c', opened = .ok c' → c'.root = root ∧ c'.registry = .standard ∧
        ((CacheLock.acquire root ⟨holderName, process, started⟩).run t.world.disk).1 =
          .ok c'.lock := by
  have hpart : Site.diskPart.get t.world = t.world.disk := rfl
  unfold openIn CacheLock.acquireIn at hopened
  simp only [Action.bind_apply, Action.change_apply, Part.change, hpart] at hopened
  generalize (CacheLock.acquire root ⟨holderName, process, started⟩).run t.world.disk = ran
    at hopened ⊢
  obtain ⟨result, d⟩ := ran
  cases result with
  | error e =>
    cases hopened
    exact ⟨rfl, fun _ heq => by cases heq⟩
  | ok lock =>
    cases hopened
    refine ⟨rfl, fun c' heq => ?_⟩
    cases heq
    exact ⟨rfl, rfl, rfl⟩

end DiskCache

/-! ## Trust -/

namespace Workshop
open DiskCache

variable {ρ ι : Type}

/-- What an entry holds besides its index comes from a product and its fingerprint. -/
structure Backing (id : BuilderId) (product : Product) (encoded : Bytes) (d : Disk)
    (entry : Place) (text : Bytes) : Prop where
  index : text =
    Bytes.ofText (EntryIndex.text ⟨EntryIndex.currentVersion, id, product.outputs⟩)
  fingerprint : ∀ serial content,
    d.at? (entry ++ [fingerprintName]) = some (.file serial content) → content = encoded
  files : ∀ p ∈ product.outputs, ∀ serial content,
    d.at? (entry ++ filePlace p) = some (.file serial content) → product.content p = some content

/-- An entry was made of a product, if it has an index. -/
def BacksOnDisk (w : Workshop ρ ι) (d : Disk) (entry : Place) : Prop :=
  ∀ serial text, d.at? (entry ++ [indexName]) = some (.file serial text) →
    ∃ id fp product encoded, fp.isBuiltIn = true ∧ w.outcome id fp = some product ∧
      fp.encode = .ok encoded ∧ Backing id product encoded d entry text

/-- All entries on the disk were made of products. -/
structure KeptOnDisk (w : Workshop ρ ι) (c : DiskCache) (s : Site ρ) : Prop where
  registry : c.registry = .standard
  footing : s.disk.Footing c.root w.vault
  /-- Names of entries have no dots. -/
  entries : ∀ name, 0x2E ∉ name → w.BacksOnDisk s.disk (w.vault ++ [name])

variable {w : Workshop ρ ι} {c : DiskCache} {d d' : Disk} {entry : Place} {s : Site ρ}

theorem BacksOnDisk.of_same (h : w.BacksOnDisk d entry) (hsame : Disk.Same entry d d') :
    w.BacksOnDisk d' entry := by
  intro serial text hindex
  rw [hsame] at hindex
  obtain ⟨id, fp, product, encoded, hfp, hproduct, hencode, hbacking⟩ := h serial text hindex
  refine ⟨id, fp, product, encoded, hfp, hproduct, hencode, hbacking.index,
    ?_, ?_⟩
  · intro serial content hat
    rw [hsame] at hat
    exact hbacking.fingerprint serial content hat
  · intro p hp serial content hat
    rw [hsame] at hat
    exact hbacking.files p hp serial content hat

theorem BacksOnDisk.of_gone (h : Disk.Gone entry d) : w.BacksOnDisk d entry := by
  intro serial text hindex
  cases (h _).symm.trans hindex

/-- An entry holds what was stored, and that was a product. -/
theorem BacksOnDisk.of_filed {id : BuilderId} {fp : Fingerprint} {product : Product}
    {encoded : Bytes} {read : RelativePath → Except FsError Bytes} (hfp : fp.isBuiltIn = true)
    (hproduct : w.outcome id fp = some product) (hencode : fp.encode = .ok encoded)
    (hread : ∀ p ∈ product.outputs, ∀ content, read p = .ok content →
      product.content p = some content)
    (h : Filed d entry id encoded product.outputs read) : w.BacksOnDisk d entry := by
  intro serial text hindex
  obtain ⟨_, hindexed⟩ := h.index
  cases hindex.symm.trans hindexed
  refine ⟨id, fp, product, encoded, hfp, hproduct, hencode, rfl, ?_, ?_⟩
  · intro serial content hat
    obtain ⟨_, hprinted⟩ := h.fingerprint
    cases hat.symm.trans hprinted
    rfl
  · intro p hp serial content hat
    obtain ⟨_, content', hcontent, hfile⟩ := h.files p hp
    cases hat.symm.trans hfile
    exact hread p hp content hcontent

/-! ## Hits -/

theorem eq_of_decode {fp stored : Fingerprint} {encoded : Bytes} (hfp : fp.isBuiltIn = true)
    (hencode : fp.encode = .ok encoded) (h : Registry.standard.decode encoded = .ok stored) :
    stored = fp := by
  rw [Fingerprint.eq_wire_of_encode hfp hencode,
    Fingerprint.decode_wire hfp (Fingerprint.body_lt_of_encode hfp hencode)] at h
  split at h
  · cases h
  · split at h
    · cases h
    · cases h
      rfl

/-- A hit: the index is that of a product of the fingerprint, and so are the files. -/
theorem KeptOnDisk.found (h : w.KeptOnDisk c s) {id : BuilderId} {fp stored : Fingerprint}
    (hstored : c.readFingerprint id s.disk = .ok stored) (hagrees : stored.agrees fp = true) :
    ∃ product, w.outcome id fp = some product ∧
      c.readIndex id s.disk = .ok ⟨EntryIndex.currentVersion, id, product.outputs⟩ ∧
      ∀ p ∈ product.outputs, ∀ content,
        (filesIn (c.entryDir id)).read p s.disk = .ok content →
          product.content p = some content := by
  obtain ⟨⟨index, hindex⟩, encoded, hencoded, hdecode⟩ := of_readFingerprint hstored
  obtain ⟨text, htext, hofText, hbuilder⟩ := of_readIndex hindex
  obtain ⟨bytes, hbytes, htext⟩ := Disk.text?_of_readText htext
  have hread {names : List Bytes} (hn : ∀ n ∈ names, OsPath.IsName n) {content : Bytes}
      (hcontent : s.disk.read (OsPath.below c.root (entryName id :: names)) = .ok content) :=
    at?_of_read_entry h.footing hn hcontent
  rw [entryFile_eq] at hbytes hencoded
  obtain ⟨serial, hfile⟩ := hread (List.forall_mem_singleton.2 isName_indexName) hbytes
  obtain ⟨serial', hfile'⟩ := hread (List.forall_mem_singleton.2 isName_fingerprintName) hencoded
  obtain ⟨id', fp', product, encoded', hfp, hproduct, hencode, hbacking⟩ :=
    h.entries (entryName id) (OsPath.not_mem_shortHash (by decide)) serial bytes hfile
  cases hbacking.fingerprint serial' encoded hfile'
  rw [h.registry] at hdecode
  cases eq_of_decode hfp hencode hdecode
  cases (Fingerprint.agrees_iff hfp).1 hagrees
  rw [hbacking.index, Bytes.text?_ofText] at htext
  cases htext
  rw [EntryIndex.ofText?_text (show EntryIndex.currentVersion < Nat.pow 2 32 by decide)] at hofText
  cases hofText
  cases hbuilder
  refine ⟨product, hproduct, hindex, ?_⟩
  intro p hp content hcontent
  have hcontent : s.disk.read (p.under (filesIn (c.entryDir id')).root) = .ok content :=
    ok_of_mapError hcontent
  rw [under_filesIn] at hcontent
  obtain ⟨serial, hat⟩ := hread (isName_filePlace p) hcontent
  exact hbacking.files p hp serial content hat

theorem KeptOnDisk.thinned (h : w.KeptOnDisk c s) (hthinned : c.Thinned w.vault s.disk d') :
    w.KeptOnDisk c { s with disk := d' } := by
  refine ⟨h.registry, hthinned.footing, ?_⟩
  intro name hname
  rcases hthinned.entries name with hsame | hgone
  · exact (h.entries name hname).of_same hsame
  · exact .of_gone hgone

theorem KeptOnDisk.taken {c' : DiskCache} (h : w.KeptOnDisk c s) (hroot : c'.root = c.root)
    (hregistry : c'.registry = .standard)
    (htaken : CacheLock.Taken c.root w.vault s.disk d') :
    w.KeptOnDisk c' { s with disk := d' } := by
  refine ⟨hregistry, hroot ▸ htaken.footing, ?_⟩
  intro name hname
  have hdot : 0x2E ∈ CacheLock.fileName := by decide
  exact (h.entries name hname).of_same (htaken.entries name fun e => hname (e ▸ hdot))

/-! ## Copying out -/

theorem copied_copyOut {files : LocalDirectory} {id : BuilderId} {product : Product} :
    ∀ (l : List RelativePath) (s : Site ρ), (∀ p ∈ l, ∀ content,
      files.read p s.disk = .ok content → product.content p = some content) →
    (∃ m, (copyOut Site.diskPart files id Site.directory l s).2 =
        { s with target := { s.target with files := m } }) ∧
      (∀ p, p ∉ l → (copyOut Site.diskPart files id Site.directory l s).2.target.files.get? p =
        s.target.files.get? p) ∧
      ((copyOut Site.diskPart files id Site.directory l s).1 = .ok () → ∀ p ∈ l,
        (copyOut Site.diskPart files id Site.directory l s).2.target.files.get? p =
          product.content p)
  | [], s, _ => ⟨⟨_, rfl⟩, fun _ _ => rfl, fun _ p hp => (List.not_mem_nil hp).elim⟩
  | p :: rest, s, hread => by
    rw [copyOut]
    cases hp : files.read p (Site.diskPart.get s) with
    | error e => exact ⟨⟨_, rfl⟩, fun _ _ => rfl, nofun⟩
    | ok content =>
      have hwrite : Site.directory.write p content s = (.ok (), { s with
        target := { s.target with files := s.target.files.insert p content } }) := rfl
      have hproduct := hread p List.mem_cons_self content hp
      obtain ⟨⟨m, hsite⟩, hothers, hcomplete⟩ := @copied_copyOut files id product rest
        { s with target := { s.target with files := s.target.files.insert p content } }
        fun q hq => hread q (List.mem_cons_of_mem _ hq)
      dsimp only
      rw [hwrite]
      refine ⟨⟨m, hsite⟩, ?_, ?_⟩
      · intro q hq
        have hne : q ≠ p := fun e => hq (e ▸ List.mem_cons_self)
        rw [hothers q fun hmem => hq (List.mem_cons_of_mem _ hmem)]
        exact SortedMap.get?_insert_of_ne hne
      · intro hok q hq
        by_cases hmem : q ∈ rest
        · exact hcomplete hok q hmem
        · have heq : q = p := (List.mem_cons.1 hq).resolve_right hmem
          rw [hothers q hmem, heq, hproduct]
          exact SortedMap.get?_insert_self _ _ _

/-- Asking whether there is a hit: the answer is that of the fingerprint that is read back. -/
theorem contains_apply (c : DiskCache) (id : BuilderId) (fp : Fingerprint) (t : Traced (Site ρ)) :
    Told t ((DiskCache.cache Site.diskPart c).contains id fp t).2 ∧
      (((DiskCache.cache Site.diskPart c).contains id fp t).1 = true →
        ∃ stored, c.readFingerprint id t.world.disk = .ok stored ∧ stored.agrees fp = true) := by
  have hpart : Site.diskPart.get t.world = t.world.disk := rfl
  unfold DiskCache.cache
  simp only [Action.bind_apply, Action.ask_apply, hpart]
  generalize c.readFingerprint id t.world.disk = answer
  cases answer with
  | ok stored => exact ⟨.rfl, fun hfound => ⟨stored, rfl, hfound⟩⟩
  | error e =>
    cases e with
    | missing => exact ⟨.rfl, nofun⟩
    | _ => exact ⟨.tell _, nofun⟩

theorem copied_restore {product : Product} {id : BuilderId} {t : Traced (Site ρ)}
    (hindex : c.readIndex id t.world.disk =
      .ok ⟨EntryIndex.currentVersion, id, product.outputs⟩)
    (hfiles : ∀ p ∈ product.outputs, ∀ content,
      (filesIn (c.entryDir id)).read p t.world.disk = .ok content →
        product.content p = some content) :
    Copied product t.world
      ((DiskCache.cache Site.diskPart c).restore id Site.directory t).2.world
      ((DiskCache.cache Site.diskPart c).restore id Site.directory t).1 := by
  have hpart : Site.diskPart.get t.world = t.world.disk := rfl
  obtain ⟨hsite, hothers, hcomplete⟩ := @copied_copyOut _ (filesIn (c.entryDir id)) id product
    product.outputs.toList t.world fun p hp => hfiles p ((SortedSet.mem_toList _ _).1 hp)
  unfold DiskCache.cache
  simp only [Action.bind_apply, Action.ask_apply, hpart, hindex, Action.change_apply]
  generalize copyOut Site.diskPart (filesIn (c.entryDir id)) id Site.directory
    product.outputs.toList t.world = copied at hsite hothers hcomplete ⊢
  obtain ⟨result, s'⟩ := copied
  have hkept (p : RelativePath) (hp : p ∉ product.outputs) :
      s'.target.files.get? p = t.world.target.files.get? p :=
    hothers p fun hmem => hp ((SortedSet.mem_toList _ _).1 hmem)
  cases result with
  | error e => exact ⟨hsite, hkept, nofun⟩
  | ok =>
    refine ⟨hsite, hkept, fun outputs heq => ?_⟩
    cases heq
    exact ⟨rfl, fun p hp => hcomplete rfl p ((SortedSet.mem_toList _ _).2 hp)⟩

theorem trusts_disk (w : Workshop ρ ι) (c : DiskCache) :
    w.Trusts (w.KeptOnDisk c) (DiskCache.cache Site.diskPart c) := by
  refine ⟨fun s target h => ⟨h.registry, h.footing, h.entries⟩,
    fun id fp t => (contains_apply c id fp t).1,
    ?_, ?_⟩
  · intro id fp t t' _ hkept hfound htold
    obtain ⟨stored, hstored, hagrees⟩ := (contains_apply c id fp t).2 hfound
    obtain ⟨product, hproduct, hindex, hfiles⟩ := hkept.found hstored hagrees
    obtain ⟨events, rfl⟩ := htold
    exact ⟨product, hproduct,
      copied_restore (t := { t with log := events ++ t.log }) hindex hfiles⟩
  · intro id fp product t hfp hproduct hkept hcontent
    rw [(store_eq _ _ _ _ _ _).2]
    have hstored := (meets_store hkept.footing id fp product.outputs
      (Site.directory.read · t.world)).run
    refine ⟨⟨hkept.registry, hstored.footing, ?_⟩, rfl,
      w.inputs_eq _ _ rfl (fun _ _ => rfl) hstored.outside⟩
    intro name hname
    rcases hstored.entries name hname with hsame | hgone | ⟨-, encoded, hencode, hfiled⟩
    · exact (hkept.entries name hname).of_same hsame
    · exact .of_gone hgone
    · refine .of_filed hfp hproduct hencode ?_ hfiled
      intro p hp content hread
      rw [← hcontent p hp]
      exact Site.get?_of_read hread

end Workshop

end Rebuild
