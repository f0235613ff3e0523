import Rebuild.Proofs.Disk.Seeing
import Rebuild.Proofs.Incremental.InMemory
import Rebuild.Proofs.Incremental.OnDisk

/-!
# What caches answer

What a cache on the disk answers is a question about the disk, and what it hands
out depends on the disk only by what can be read in the entry. So the answers stay
the same as long as the files of an entry read the same.

* `DiskCache.answer`, `DiskCache.restoration`: the answers, told from the disk.
* `deliver`: files handed out in order, until one cannot be read or written.
* `Cache.Agrees`: two caches in two worlds that answer alike for a builder.
-/
namespace Rebuild
open DiskM

variable {ρ σ : Type}

/-! ## Directories apart from the cache -/

namespace Site

theorem change_disk {α : Type} (f : Disk → α × Disk) (s : Site ρ) :
    diskPart.change f s = ((f s.disk).1, { s with disk := (f s.disk).2 }) := rfl

def restPart : Part (Site ρ) ρ := ⟨rest, fun r s => { s with rest := r }⟩

/-- A directory in the rest of the site, which no cache touches. -/
def elsewhere (dir : Directory ρ) : Directory (Site ρ) where
  label := dir.label
  holds p s := dir.holds p s.rest
  read p s := dir.read p s.rest
  write p content := restPart.change (dir.write p content)
  delete p := restPart.change (dir.delete p)
  list below s := dir.list below s.rest

end Site

/-! ## Handing out files -/

/-- Hands out files in order, until one cannot be read or written. -/
def deliver (read : RelativePath → Except FsError Bytes) (id : BuilderId) (target : Directory σ) :
    List RelativePath → σ → Except CacheError Unit × σ
  | [], s => (.ok (), s)
  | p :: rest, s =>
    match read p with
    | .error e => (.error (.corrupt id (.artifact e)), s)
    | .ok content =>
      match target.write p content s with
      | (.ok (), s) => deliver read id target rest s
      | (.error e, s) => (.error (.artifact id e), s)

section Deliver

variable {read read' : RelativePath → Except FsError Bytes} {id : BuilderId}

theorem deliver_congr {target : Directory σ} : ∀ {l : List RelativePath} {s : σ},
    (∀ p ∈ l, read p = read' p) → deliver read id target l s = deliver read' id target l s
  | [], _, _ => rfl
  | p :: rest, s, h => by
    obtain ⟨hp, hrest⟩ := List.forall_mem_cons.1 h
    rw [deliver, deliver, hp]
    cases read' p with
    | error e => rfl
    | ok content =>
      dsimp only
      split
      · exact deliver_congr hrest
      · rfl

theorem readFiles_of_deliver {target : Directory σ} : ∀ {l : List RelativePath} {s : σ},
    (deliver read id target l s).1 = .ok () →
      ∃ files, MemoryCache.readFiles read l = .ok files
  | [], _, _ => ⟨[], rfl⟩
  | p :: rest, s, h => by
    rw [deliver] at h
    cases hp : read p with
    | error e => rw [hp] at h; cases h
    | ok content =>
      rw [hp] at h
      dsimp only at h
      split at h
      · obtain ⟨files, hfiles⟩ := readFiles_of_deliver h
        refine ⟨(p, content) :: files, ?_⟩
        rw [MemoryCache.readFiles, bind_ok hp, bind_ok hfiles]
        rfl
      · cases h

theorem deliver_of_readFiles {target : Directory σ} : ∀ {l : List RelativePath}
    {files : List (RelativePath × Bytes)} {s : σ}, MemoryCache.readFiles read l = .ok files →
    deliver read id target l s =
      ((target.writeAll files s).1.mapError (.artifact id), (target.writeAll files s).2)
  | [], files, s, h => by
    cases h
    rfl
  | p :: rest, files, s, h => by
    rw [MemoryCache.readFiles] at h
    obtain ⟨content, hp, h⟩ := ok_of_bind h
    obtain ⟨others, hrest, h⟩ := ok_of_bind h
    cases h
    rw [deliver, hp, Directory.writeAll]
    dsimp only
    generalize target.write p content s = written
    obtain ⟨result, s'⟩ := written
    cases result with
    | error e => rfl
    | ok => exact deliver_of_readFiles hrest

theorem deliver_elsewhere (dir : Directory ρ) : ∀ (l : List RelativePath) (s : Site ρ),
    deliver read id (Site.elsewhere dir) l s = Site.restPart.change (deliver read id dir l) s
  | [], s => rfl
  | p :: rest, s => by
    rw [deliver, Part.change, deliver]
    have hrest : Site.restPart.get s = s.rest := rfl
    have hwrite (content : Bytes) : (Site.elsewhere dir).write p content s =
        ((dir.write p content s.rest).1, { s with rest := (dir.write p content s.rest).2 }) := rfl
    rw [hrest]
    cases read p with
    | error e => rfl
    | ok content =>
      dsimp only
      rw [hwrite]
      generalize dir.write p content s.rest = written
      obtain ⟨result, r⟩ := written
      cases result with
      | error e => rfl
      | ok => exact deliver_elsewhere dir rest { s with rest := r }

/-- Files are handed out as they lie on the disk, if the target leaves the disk alone. -/
theorem copyOut_eq {part : Part σ Disk} {files : LocalDirectory} {target : Directory σ} {d : Disk}
    (hspare : ∀ p content s, part.get (target.write p content s).2 = part.get s) :
    ∀ {l : List RelativePath} {s : σ}, part.get s = d →
      DiskCache.copyOut part files id target l s = deliver (files.read · d) id target l s
  | [], _, _ => rfl
  | p :: rest, s, hs => by
    rw [DiskCache.copyOut, deliver, hs]
    cases files.read p d with
    | error e => rfl
    | ok content =>
      have hnext := hspare p content s
      dsimp only
      generalize target.write p content s = written at hnext ⊢
      obtain ⟨result, s'⟩ := written
      cases result with
      | error e => rfl
      | ok => exact copyOut_eq hspare (hnext.trans hs)

end Deliver

/-! ## Answers -/

namespace DiskCache

/-- Whether a fingerprint that can be read agrees. -/
def answer (c : DiskCache) (id : BuilderId) (fp : Fingerprint) (d : Disk) : Bool :=
  match c.readFingerprint id d with
  | .ok stored => stored.agrees fp
  | .error _ => false

/-- How a restoration into a directory apart from the cache ends, and what it makes of it. -/
def restoration (c : DiskCache) (id : BuilderId) (dir : Directory ρ) (d : Disk) (r : ρ) :
    Except CacheError Outputs × ρ :=
  match c.readIndex id d with
  | .error e => (.error e, r)
  | .ok index =>
    match deliver ((filesIn (c.entryDir id)).read · d) id dir index.files.toList r with
    | (.error e, r) => (.error e, r)
    | (.ok (), r) => (.ok index.files, r)

variable {c : DiskCache} {id : BuilderId} {fp : Fingerprint}

theorem answer_eq_true {d : Disk} : c.answer id fp d = true ↔
    ∃ stored, c.readFingerprint id d = .ok stored ∧ stored.agrees fp = true := by
  unfold answer
  cases c.readFingerprint id d with
  | error e => exact ⟨nofun, fun ⟨_, heq, _⟩ => nomatch heq⟩
  | ok stored => exact ⟨fun h => ⟨stored, rfl, h⟩, fun ⟨_, heq, h⟩ => Except.ok.inj heq ▸ h⟩

theorem contains_eq (part : Part σ Disk) (c : DiskCache) (id : BuilderId) (fp : Fingerprint)
    (t : Traced σ) :
    ((cache part c).contains id fp t).1 = c.answer id fp (part.get t.world) ∧
      ((cache part c).contains id fp t).2.world = t.world := by
  unfold cache answer
  simp only [Action.bind_apply, Action.ask_apply]
  cases c.readFingerprint id (part.get t.world) with
  | ok stored => exact ⟨rfl, rfl⟩
  | error e => cases e <;> exact ⟨rfl, rfl⟩

/-- Restoring into a directory apart from the cache changes nothing but that directory. -/
theorem restore_eq (c : DiskCache) (id : BuilderId) (dir : Directory ρ) (t : Traced (Site ρ)) :
    ((cache Site.diskPart c).restore id (Site.elsewhere dir) t).1 =
        (c.restoration id dir t.world.disk t.world.rest).1 ∧
      ((cache Site.diskPart c).restore id (Site.elsewhere dir) t).2.world =
        { t.world with rest := (c.restoration id dir t.world.disk t.world.rest).2 } := by
  have hpart : Site.diskPart.get t.world = t.world.disk := rfl
  unfold cache restoration
  simp only [Action.bind_apply, Action.ask_apply, hpart]
  cases c.readIndex id t.world.disk with
  | error e => exact ⟨rfl, rfl⟩
  | ok index =>
    have hcopied : copyOut Site.diskPart (filesIn (c.entryDir id)) id (Site.elsewhere dir)
        index.files.toList t.world = Site.restPart.change
          (deliver ((filesIn (c.entryDir id)).read · t.world.disk) id dir index.files.toList)
          t.world := (copyOut_eq (fun _ _ _ => rfl) hpart).trans (deliver_elsewhere dir _ _)
    simp only [Action.bind_apply, Action.change_apply, hcopied, Part.change]
    have hrest : Site.restPart.get t.world = t.world.rest := rfl
    rw [hrest]
    generalize deliver ((filesIn (c.entryDir id)).read · t.world.disk) id dir
      index.files.toList t.world.rest = delivered
    obtain ⟨result, r⟩ := delivered
    cases result <;> exact ⟨rfl, rfl⟩

/-- What is restored are the files of the index, all of which were read. -/
theorem of_restoration {dir : Directory ρ} {d : Disk} {r : ρ} {outputs : Outputs}
    (h : (c.restoration id dir d r).1 = .ok outputs) :
    ∃ index files, c.readIndex id d = .ok index ∧ outputs = index.files ∧
      MemoryCache.readFiles ((filesIn (c.entryDir id)).read · d) outputs.toList = .ok files ∧
      (dir.writeAll files r).1 = .ok () ∧
      (c.restoration id dir d r).2 = (dir.writeAll files r).2 := by
  unfold restoration at h ⊢
  cases hindex : c.readIndex id d with
  | error e => rw [hindex] at h; cases h
  | ok index =>
    rw [hindex] at h
    dsimp only at h ⊢
    generalize hdelivered : deliver ((filesIn (c.entryDir id)).read · d) id dir
      index.files.toList r = delivered at h ⊢
    obtain ⟨result, r'⟩ := delivered
    cases result with
    | error e => cases h
    | ok =>
      cases h
      obtain ⟨files, hfiles⟩ := readFiles_of_deliver (congrArg Prod.fst hdelivered)
      rw [deliver_of_readFiles hfiles] at hdelivered
      obtain ⟨hresult, hrest⟩ := Prod.mk.inj hdelivered
      exact ⟨index, files, rfl, rfl, hfiles, ok_of_mapError hresult, hrest.symm⟩

theorem restoration_of_readFiles {dir : Directory ρ} {d : Disk} {r : ρ} {index : EntryIndex}
    {files : List (RelativePath × Bytes)} (hindex : c.readIndex id d = .ok index)
    (hfiles : MemoryCache.readFiles ((filesIn (c.entryDir id)).read · d) index.files.toList =
      .ok files) :
    c.restoration id dir d r =
      match dir.writeAll files r with
      | (.ok (), r) => (.ok index.files, r)
      | (.error e, r) => (.error (.artifact id e), r) := by
  unfold restoration
  rw [hindex]
  dsimp only
  rw [deliver_of_readFiles hfiles]
  generalize dir.writeAll files r = written
  obtain ⟨result, r'⟩ := written
  cases result <;> rfl

end DiskCache

/-! ## Answering alike -/

/-- Asked for a builder in two worlds, two caches answer alike and hand out the same. -/
structure Cache.Agrees (cache cache' : Cache (Site ρ)) (id : BuilderId) (s s' : Site ρ) : Prop where
  contains : ∀ fp log log', (cache'.contains id fp ⟨s', log'⟩).1 = (cache.contains id fp ⟨s, log⟩).1
  restore : ∀ dir log log',
    (cache'.restore id (Site.elsewhere dir) ⟨s', log'⟩).1 =
        (cache.restore id (Site.elsewhere dir) ⟨s, log⟩).1 ∧
      (cache'.restore id (Site.elsewhere dir) ⟨s', log'⟩).2.world.rest =
        (cache.restore id (Site.elsewhere dir) ⟨s, log⟩).2.world.rest

namespace DiskCache

variable {c c' : DiskCache} {id : BuilderId} {d d' : Disk}

/-- Whatever is read in an entry, the same is read in another state. -/
def ReadsAlike (c c' : DiskCache) (id : BuilderId) (d d' : Disk) : Prop :=
  ∀ place, (∀ name ∈ place, OsPath.IsName name) →
    d'.read (OsPath.below c'.root (entryName id :: place)) =
      d.read (OsPath.below c.root (entryName id :: place))

/-- Answers depend on nothing but the files of the entry. The paths in messages are those below the
root, which is the same. -/
theorem agrees_of_readsAlike (hroot : c'.root = c.root) (hregistry : c'.registry = c.registry)
    (h : ReadsAlike c c' id d d') {s s' : Site ρ} (hs : s.disk = d) (hs' : s'.disk = d')
    (hrest : s'.rest = s.rest) :
    Cache.Agrees (cache Site.diskPart c) (cache Site.diskPart c') id s s' := by
  have hdir : c'.entryDir id = c.entryDir id := by
    unfold entryDir
    rw [hroot]
  have hfile (name : String) (hname : OsPath.IsName (Bytes.ofText name)) :
      d'.read ((c'.entryDir id).child name) = d.read ((c.entryDir id).child name) := by
    rw [entryFile_eq, entryFile_eq]
    exact h [_] (List.forall_mem_singleton.2 hname)
  have hindex : c'.readIndex id d' = c.readIndex id d := by
    unfold readIndex Disk.readText
    dsimp only
    rw [hfile "entry.json" isName_indexName, hdir]
  have hprint : c'.readFingerprint id d' = c.readFingerprint id d := by
    unfold readFingerprint
    dsimp only
    rw [hindex, hfile "fingerprint.bin" isName_fingerprintName, hregistry, hdir]
  have hread (p : RelativePath) :
      (filesIn (c'.entryDir id)).read p d' = (filesIn (c.entryDir id)).read p d := by
    unfold LocalDirectory.read
    rw [under_filesIn, under_filesIn, h _ (isName_filePlace p)]
  subst hs hs'
  refine ⟨fun fp log log' => ?_, fun dir log log' => ?_⟩
  · rw [(contains_eq _ c' id fp _).1, (contains_eq _ c id fp _).1]
    show c'.answer id fp s'.disk = c.answer id fp s.disk
    unfold answer
    rw [hprint]
  · have hrestored :
        c'.restoration id dir s'.disk s'.rest = c.restoration id dir s.disk s.rest := by
      unfold restoration
      rw [hindex, hrest, hdir]
      rw [hdir] at hread
      simp only [hread]
    obtain ⟨hresult, hworld⟩ := restore_eq c id dir ⟨s, log⟩
    obtain ⟨hresult', hworld'⟩ := restore_eq c' id dir ⟨s', log'⟩
    rw [hresult, hresult', hworld, hworld', hrestored]
    exact ⟨rfl, rfl⟩

theorem agrees_of_same {dir : Place} {s s' : Site ρ} (hroot : c'.root = c.root)
    (hregistry : c'.registry = c.registry) (h : s.disk.Footing c.root dir)
    (h' : s'.disk.Footing c.root dir) (hsame : Disk.Same (dir ++ [entryName id]) s.disk s'.disk)
    (hrest : s'.rest = s.rest) :
    Cache.Agrees (cache Site.diskPart c) (cache Site.diskPart c') id s s' := by
  refine agrees_of_readsAlike hroot hregistry (fun place hplace => ?_) rfl rfl hrest
  rw [hroot]
  exact h.read_of_same h' hsame (List.forall_mem_cons.2 ⟨isName_entryName id, hplace⟩)

end DiskCache

end Rebuild
