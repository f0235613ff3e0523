import Mathlib
import Rebuild.Proofs.Lock.Clearing

/-!
# Locks exclude each other and name their holders

Any number of parties ask for locks, for their own sake or to open caches, give them up, and
clear their caches, in any order and wherever their roots are. In between anything may happen
on the disk that leaves the files of the held locks alone. At any time there is at most one lock on
a directory, and its file says whose it is: so whoever asks for it is told, and nobody else is ever
named.

* `CacheLock.Holdings`, `CacheLock.Step`: the locks that are held, and how they change.
* `CacheLock.Sound`: the invariant. The locked files are the lock files of the held locks, and each
  says who holds the lock.
* `Sound.step`: every step keeps it, as long as no directory is cleared that has another locked
  one inside.
* `CacheLock.Reached.sound`: so it always holds.

The runs at the end are computed by `cbv`. The whole library is imported because it has the
equations of its own functions, which would be declared here otherwise.
-/
namespace Rebuild.CacheLock
open DiskM

/-! ## Parties that take and drop locks -/

/-- A lock that is held: whose it is, of which root, and the directory that the root led to. -/
structure Tenure where
  lock : CacheLock
  holder : LockHolder
  root : OsPath
  dir : Place

/-- The disk, and the locks that are held. -/
structure Holdings where
  disk : Disk
  held : List Tenure

/-- A lock is asked for: for its own sake, or for a cache that is opened. -/
inductive Asked (root : OsPath) (holder : LockHolder) (d : Disk) :
    Except LockError CacheLock → Disk → Prop where
  | lock : Asked root holder d ((acquire root holder).run d).1 ((acquire root holder).run d).2
  | cache {c registry log t process started}
      (hholder : holder = ⟨DiskCache.holderName, process, started⟩)
      (hopened : DiskCache.openIn .whole root registry process started ⟨d, log⟩ = (.ok c, t)) :
      Asked root holder d (.ok c.lock) t.world
  | noCache {e registry log t process started}
      (hholder : holder = ⟨DiskCache.holderName, process, started⟩)
      (hrefused : DiskCache.openIn .whole root registry process started ⟨d, log⟩ =
        (.error (.lock e), t)) : Asked root holder d (.error e) t.world

/-- Anything that others do to the disk. They keep their hands off locks, and off lock files as long
as somebody holds the lock. -/
structure Elsewhere (s : Holdings) (d : Disk) : Prop where
  proper : d.Proper
  locked : d.locked = s.disk.locked
  files : ∀ t ∈ s.held, d.at? (t.dir ++ [fileName]) = s.disk.at? (t.dir ++ [fileName])

/-- A cache of which the lock is held. -/
structure IsCacheOf (t : Tenure) (c : DiskCache) : Prop where
  root : c.root = t.root
  lock : c.lock = t.lock

/-- What may happen. Caches may be cleared as `clears` says. -/
inductive Step (clears : Holdings → DiskCache → Prop) : Holdings → Holdings → Prop where
  | granted {s root holder dir lock d} (hholder : holder.Fits) (hsite : Sited root dir s.disk)
      (hasked : Asked root holder s.disk (.ok lock) d) :
      Step clears s ⟨d, ⟨lock, holder, root, dir⟩ :: s.held⟩
  | refused {s root holder dir e d} (hholder : holder.Fits) (hsite : Sited root dir s.disk)
      (hasked : Asked root holder s.disk (.error e) d) : Step clears s ⟨d, s.held⟩
  | dropped {s t before after} (hheld : s.held = before ++ t :: after) :
      Step clears s ⟨t.lock.release s.disk, before ++ after⟩
  | cleared {s t c} (ht : t ∈ s.held) (hcache : IsCacheOf t c) (hclears : clears s c) :
      Step clears s ⟨(c.clear.run s.disk).2, s.held⟩
  | elsewhere {s d} (h : Elsewhere s d) : Step clears s ⟨d, s.held⟩

/-- What can come about from a disk without locks. -/
inductive Reached (clears : Holdings → DiskCache → Prop) : Holdings → Prop where
  | start {d} (hproper : d.Proper) (hidle : ∀ n, n ∉ d.locked) : Reached clears ⟨d, []⟩
  | step {s s'} (h : Reached clears s) (hstep : Step clears s s') : Reached clears s'

/-- A cache is cleared that has no locked directory inside its own. -/
def Spares (s : Holdings) (c : DiskCache) : Prop :=
  ∀ dir, s.disk.dirAt c.root = .ok dir → ∀ t ∈ s.held, ¬dir.Inside t.dir

/-- Opening a cache is asking for its lock. -/
theorem openIn_whole (root : OsPath) (registry : Registry) (process started : Nat)
    (t : Traced Disk) :
    let ran := (acquire root ⟨DiskCache.holderName, process, started⟩).run t.world
    let opened := DiskCache.openIn .whole root registry process started t
    opened.2.world = ran.2 ∧ match ran.1 with
      | .ok lock => opened.1 = .ok ⟨root, registry, lock⟩
      | .error e => opened.1 = .error (.lock e) := by
  have hpart : Part.whole.get t.world = t.world := rfl
  unfold DiskCache.openIn acquireIn
  simp only [Action.bind_apply, Action.change_apply, Part.change, hpart]
  generalize (acquire root ⟨DiskCache.holderName, process, started⟩).run t.world = ran
  obtain ⟨result, d⟩ := ran
  cases result <;> exact ⟨rfl, rfl⟩

theorem Asked.eq_run {root : OsPath} {holder : LockHolder} {d d' : Disk}
    {result : Except LockError CacheLock} (h : Asked root holder d result d') :
    (acquire root holder).run d = (result, d') := by
  cases h with
  | lock => rfl
  | @cache c registry log t process started hholder hopened =>
    obtain ⟨hworld, hresult⟩ := openIn_whole root registry process started ⟨d, log⟩
    rw [hopened, ← hholder] at hworld hresult
    dsimp only at hworld hresult
    generalize (acquire root holder).run d = ran at hworld hresult ⊢
    obtain ⟨result, d'⟩ := ran
    cases result with
    | ok lock =>
      cases hresult
      rw [hworld]
    | error => cases hresult
  | @noCache e registry log t process started hholder hrefused =>
    obtain ⟨hworld, hresult⟩ := openIn_whole root registry process started ⟨d, log⟩
    rw [hrefused, ← hholder] at hworld hresult
    dsimp only at hworld hresult
    generalize (acquire root holder).run d = ran at hworld hresult ⊢
    obtain ⟨result, d'⟩ := ran
    cases result with
    | ok => cases hresult
    | error e =>
      cases hresult
      rw [hworld]

/-! ## The invariant -/

/-- The lock file of a held lock says who holds it. -/
structure Tenure.Stands (t : Tenure) (d : Disk) : Prop where
  path : t.lock.path = pathIn t.root
  fits : t.holder.Fits
  signed : Signed t.dir t.lock.serial t.holder t.root d

theorem Tenure.Stands.congr {t : Tenure} {d d' : Disk} (h : t.Stands d)
    (hat : d'.at? (t.dir ++ [fileName]) = d.at? (t.dir ++ [fileName])) : t.Stands d' :=
  ⟨h.path, h.fits, h.signed.congr hat⟩

theorem IsCacheOf.path_eq {t : Tenure} {c : DiskCache} {d : Disk} (h : IsCacheOf t c)
    (ht : t.Stands d) : c.lock.path = pathIn c.root := by
  rw [h.lock, h.root, ht.path]

/-- The locked files are the lock files of the held locks, which are on different directories, and
each says who holds the lock. -/
structure Sound (s : Holdings) : Prop where
  proper : s.disk.Proper
  stands : ∀ t ∈ s.held, t.Stands s.disk
  locked : ∀ n, n ∈ s.disk.locked ↔ ∃ t ∈ s.held, t.lock.serial = n
  apart : s.held.Pairwise fun t t' => t.dir ≠ t'.dir

namespace Sound

variable {s : Holdings} {root : OsPath} {dir : Place} {holder : LockHolder} {t : Tenure}

theorem dir_eq (h : Sound s) (ht : t ∈ s.held) {content : Bytes}
    (hfile : s.disk.at? (dir ++ [fileName]) = some (.file t.lock.serial content)) :
    t.dir = dir := by
  obtain ⟨text, -, hown⟩ := (h.stands t ht).signed
  exact List.append_cancel_right (h.proper.single _ _ _ _ _ hfile hown)

theorem serial_lt (h : Sound s) {n : Nat} (hn : n ∈ s.disk.locked) : n < s.disk.serials := by
  obtain ⟨t, ht, rfl⟩ := (h.locked n).1 hn
  obtain ⟨text, -, hfile⟩ := (h.stands t ht).signed
  exact h.proper.numbered _ _ _ hfile

theorem acquire_granted (h : Sound s) (hsite : Sited root dir s.disk)
    (hfree : ∀ t ∈ s.held, t.dir ≠ dir) (holder : LockHolder) :
    ∃ lock, ((acquire root holder).run s.disk).1 = .ok lock ∧
      Granted root dir holder s.disk lock ((acquire root holder).run s.disk).2 := by
  refine run_acquire_taken h.proper hsite (fun serial content hfile hlocked => ?_)
    (fun hlocked => Nat.lt_irrefl _ (h.serial_lt hlocked)) holder
  obtain ⟨t, ht, rfl⟩ := (h.locked serial).1 hlocked
  exact hfree t ht (h.dir_eq ht hfile)

theorem acquire_refused (h : Sound s) (hsite : Sited root t.dir s.disk) (ht : t ∈ s.held)
    (holder : LockHolder) :
    ((acquire root holder).run s.disk).1 = .error (.contention (some t.holder) (pathIn root)) ∧
      Disk.Made s.disk ((acquire root holder).run s.disk).2 := by
  have hstands := h.stands t ht
  exact run_acquire_refused h.proper hsite hstands.signed hstands.fits
    ((h.locked _).2 ⟨t, ht, rfl⟩) holder

/-! ## Every step keeps it -/

theorem granted (h : Sound s) (hholder : holder.Fits) (hfree : ∀ t ∈ s.held, t.dir ≠ dir)
    {lock : CacheLock} {d : Disk} (hgranted : Granted root dir holder s.disk lock d) :
    Sound ⟨d, ⟨lock, holder, root, dir⟩ :: s.held⟩ := by
  refine ⟨hgranted.proper, List.forall_mem_cons.2
    ⟨⟨hgranted.path, hholder, hgranted.signed⟩, fun t ht => ?_⟩, fun n => ?_,
    List.pairwise_cons.2 ⟨fun t ht => (hfree t ht).symm, h.apart⟩⟩
  · obtain ⟨text, -, hfile⟩ := (h.stands t ht).signed
    have hother : t.dir ++ [fileName] ≠ dir ++ [fileName] := fun e =>
      hfree t ht (List.append_cancel_right e)
    exact (h.stands t ht).congr ((hgranted.others _ _ hother hfile).trans hfile.symm)
  · rw [hgranted.locked, h.locked]
    simp [eq_comm]

theorem unheld (h : Sound s) {d : Disk} (hproper : d.Proper) (hlocked : d.locked = s.disk.locked)
    (hfiles : ∀ t ∈ s.held, d.at? (t.dir ++ [fileName]) = s.disk.at? (t.dir ++ [fileName])) :
    Sound ⟨d, s.held⟩ := by
  refine ⟨hproper, fun t ht => (h.stands t ht).congr (hfiles t ht), fun n => ?_, h.apart⟩
  rw [hlocked]
  exact h.locked n

theorem made (h : Sound s) {d : Disk} (hmade : Disk.Made s.disk d) : Sound ⟨d, s.held⟩ := by
  refine h.unheld hmade.proper hmade.locked fun t ht => ?_
  obtain ⟨text, -, hfile⟩ := (h.stands t ht).signed
  rw [hfile, hmade.grew.at?_eq hfile]

theorem dropped (h : Sound s) {before after : List Tenure} (hheld : s.held = before ++ t :: after) :
    Sound ⟨t.lock.release s.disk, before ++ after⟩ := by
  have hmem {t' : Tenure} : t' ∈ s.held ↔ t' = t ∨ t' ∈ before ++ after := by
    rw [hheld]
    simp only [List.mem_append, List.mem_cons]
    exact or_left_comm
  have hapart := h.apart
  rw [hheld, List.pairwise_middle Ne.symm, List.pairwise_cons] at hapart
  refine ⟨h.proper.congr rfl rfl, fun t' ht' => (h.stands t' (hmem.2 (.inr ht'))).congr rfl,
    fun n => ?_, hapart.2⟩
  show n ∈ s.disk.locked.erase t.lock.serial ↔ _
  rw [SortedSet.mem_erase, h.locked]
  constructor
  · rintro ⟨hne, t', ht', rfl⟩
    refine ⟨t', (hmem.1 ht').resolve_left fun e => hne (by rw [e]), rfl⟩
  · rintro ⟨t', ht', rfl⟩
    refine ⟨fun e => hapart.1 t' ht' ?_, t', hmem.2 (.inr ht'), rfl⟩
    obtain ⟨text, -, hfile⟩ := (h.stands t' (hmem.2 (.inr ht'))).signed
    exact h.dir_eq (hmem.2 (.inl rfl)) (e ▸ hfile)

theorem cleared (h : Sound s) (ht : t ∈ s.held) {c : DiskCache} (hcache : IsCacheOf t c)
    (hspares : Spares s c) : Sound ⟨(c.clear.run s.disk).2, s.held⟩ := by
  by_cases hdir : ∃ dir, s.disk.dirAt c.root = .ok dir
  · obtain ⟨dir, hdir⟩ := hdir
    obtain ⟨⟨rest, hswept, -⟩, -⟩ :=
      (DiskCache.meets_clear_swept h.proper (hcache.path_eq (h.stands t ht)) hdir).run
    exact h.unheld hswept.proper hswept.keeps.locked fun t' ht' =>
      hswept.at?_lock (hspares dir hdir t' ht')
  · have hsame := (DiskCache.meets_clear_astray fun dir hok => hdir ⟨dir, hok⟩).run.2
    rw [hsame]
    exact h

theorem step {s' : Holdings} (h : Sound s) (hstep : Step Spares s s') : Sound s' := by
  cases hstep with
  | @granted root holder dir lock d hholder hsite hasked =>
    have hrun := hasked.eq_run
    have hfree : ∀ t ∈ s.held, t.dir ≠ dir := by
      rintro t ht rfl
      have hrefused := (h.acquire_refused hsite ht holder).1
      rw [hrun] at hrefused
      cases hrefused
    obtain ⟨lock', hlock, hgranted⟩ := h.acquire_granted hsite hfree holder
    rw [hrun] at hlock hgranted
    cases hlock
    exact h.granted hholder hfree hgranted
  | @refused root holder dir e d _ hsite hasked =>
    have hrun := hasked.eq_run
    by_cases hfree : ∀ t ∈ s.held, t.dir ≠ dir
    · obtain ⟨lock, hlock, -⟩ := h.acquire_granted hsite hfree holder
      rw [hrun] at hlock
      cases hlock
    · obtain ⟨t, ht, rfl⟩ : ∃ t ∈ s.held, t.dir = dir := by
        simpa using hfree
      have hmade := (h.acquire_refused hsite ht holder).2
      rw [hrun] at hmade
      exact h.made hmade
  | dropped hheld => exact h.dropped hheld
  | cleared ht hcache hspares => exact h.cleared ht hcache hspares
  | elsewhere helse => exact h.unheld helse.proper helse.locked helse.files

end Sound

theorem Reached.sound {s : Holdings} (h : Reached Spares s) : Sound s := by
  induction h with
  | @start d hproper hidle =>
    refine ⟨hproper, fun _ ht => absurd ht List.not_mem_nil, fun n => ?_, .nil⟩
    exact ⟨fun hn => absurd hn (hidle n), fun ⟨_, ht, _⟩ => absurd ht List.not_mem_nil⟩
  | step _ hstep ih => exact ih.step hstep

theorem Sited.of_dirAt {root : OsPath} {dir : Place} {d : Disk}
    (htext : ∃ text, root.text? = some text) (hfits : (pathIn root).length < Disk.pathLimit)
    (hdir : d.dirAt root = .ok dir) (hregular : ∀ item, d.at? (dir ++ [fileName]) = some item →
      ∃ serial content, item = .file serial content) : Sited root dir d := by
  obtain ⟨hok, hsame⟩ := (Disk.meets_makeDirs_there hdir).run
  exact ⟨htext, hfits, d, Prod.ext hok hsame, .inl hdir, hregular⟩

/-- The root of a held lock can be asked for again as long as it leads where it led. -/
theorem Sound.sited {s : Holdings} (h : Sound s) {t : Tenure} (ht : t ∈ s.held)
    (hdir : s.disk.dirAt t.root = .ok t.dir) (hfits : (pathIn t.root).length < Disk.pathLimit) :
    Sited t.root t.dir s.disk := by
  obtain ⟨text, htext, hfile⟩ := (h.stands t ht).signed
  refine Sited.of_dirAt ⟨text, htext⟩ hfits hdir fun item hitem => ?_
  cases hfile.symm.trans hitem
  exact ⟨_, _, rfl⟩

/-! ## What asking and clearing come to -/

/-- What asking for the lock of a root comes to. -/
structure Answered (s : Holdings) (root : OsPath) (text : String) (dir : Place)
    (holder : LockHolder) (result : Except LockError CacheLock) (d : Disk) : Prop where
  granted : (∃ lock, result = .ok lock) ↔ ∀ t ∈ s.held, t.dir ≠ dir
  refused : ∀ t ∈ s.held, t.dir = dir →
    result = .error (.contention (some t.holder) (pathIn root)) ∧
      d.at? (dir ++ [fileName]) = s.disk.at? (dir ++ [fileName])
  signed : ∀ lock, result = .ok lock → lock.metadata? d = some ⟨1, holder, text⟩ ∧
    d.at? (dir ++ [fileName]) =
      some (.file lock.serial (Bytes.ofText (LockMetadata.text ⟨1, holder, text⟩)))

/-- What clearing a cache comes to. -/
structure Cleared (s : Holdings) (t : Tenure) (c : DiskCache) (result : Except CacheError Unit)
    (d : Disk) : Prop where
  kept : ∀ t' ∈ s.held, d.at? (t'.dir ++ [fileName]) = s.disk.at? (t'.dir ++ [fileName])
  removed : result = .ok () → ∃ dir, s.disk.dirAt c.root = .ok dir ∧
    ∀ name names, name ≠ fileName → d.at? (dir ++ name :: names) = none
  succeeds : ∀ dir, DiskCache.Clearable c.root dir s.disk → result = .ok ()
  locked : ∀ root holder result' d', Sited root t.dir d → Asked root holder d result' d' →
    result' = .error (.contention (some t.holder) (pathIn root))

theorem Sound.answered {s : Holdings} (h : Sound s) {root : OsPath} {text : String} {dir : Place}
    {holder : LockHolder} {result : Except LockError CacheLock} {d : Disk} (hholder : holder.Fits)
    (hsite : Sited root dir s.disk) (htext : root.text? = some text)
    (hasked : Asked root holder s.disk result d) :
    Answered s root text dir holder result d := by
  have hrun := hasked.eq_run
  have hrefused {t : Tenure} (ht : t ∈ s.held) (hdir : t.dir = dir) :
      result = .error (.contention (some t.holder) (pathIn root)) ∧ Disk.Made s.disk d := by
    subst hdir
    have hrefused := h.acquire_refused hsite ht holder
    rwa [hrun] at hrefused
  have hgranted (hfree : ∀ t ∈ s.held, t.dir ≠ dir) :
      ∃ lock, result = .ok lock ∧ Granted root dir holder s.disk lock d := by
    have hgranted := h.acquire_granted hsite hfree holder
    rwa [hrun] at hgranted
  have hfree {lock : CacheLock} (hlock : result = .ok lock) : ∀ t ∈ s.held, t.dir ≠ dir := by
    intro t ht hdir
    cases hlock.symm.trans (hrefused ht hdir).1
  refine ⟨⟨fun ⟨_, hlock⟩ => hfree hlock, fun hfree => ?_⟩, fun t ht hdir => ?_,
    fun lock hlock => ?_⟩
  · obtain ⟨lock, hlock, -⟩ := hgranted hfree
    exact ⟨lock, hlock⟩
  · obtain ⟨herror, hmade⟩ := hrefused ht hdir
    obtain ⟨_, -, hfile⟩ := (h.stands t ht).signed
    rw [hdir] at hfile
    exact ⟨herror, (hmade.grew.at?_eq hfile).trans hfile.symm⟩
  · obtain ⟨lock', hlock', hgranted⟩ := hgranted (hfree hlock)
    cases hlock.symm.trans hlock'
    obtain ⟨path, serial⟩ := lock
    refine ⟨hgranted.signed.metadata?_eq hgranted.proper hholder htext path, ?_⟩
    obtain ⟨text', htext', hfile⟩ := hgranted.signed
    cases htext.symm.trans htext'
    exact hfile

theorem Sound.clearing {s : Holdings} (h : Sound s) {t : Tenure} (ht : t ∈ s.held) {c : DiskCache}
    (hcache : IsCacheOf t c) (hspares : Spares s c) :
    Cleared s t c (c.clear.run s.disk).1 (c.clear.run s.disk).2 := by
  have hafter := h.cleared ht hcache hspares
  have hswept {dir : Place} (hdir : s.disk.dirAt c.root = .ok dir) :=
    (DiskCache.meets_clear_swept h.proper (hcache.path_eq (h.stands t ht)) hdir).run
  refine ⟨fun t' ht' => ?_, fun hok => ?_, fun dir hclear => ?_, ?_⟩
  · obtain ⟨text, htext, hfile⟩ := (h.stands t' ht').signed
    obtain ⟨text', htext', hfile'⟩ := (hafter.stands t' ht').signed
    cases htext.symm.trans htext'
    exact hfile'.trans hfile.symm
  · by_cases hdir : ∃ dir, s.disk.dirAt c.root = .ok dir
    · obtain ⟨dir, hdir⟩ := hdir
      obtain ⟨⟨rest, hswept, hrest⟩, -⟩ := hswept hdir
      refine ⟨dir, hdir, fun name names hname => ?_⟩
      rw [List.append_cons]
      exact hswept.gone name hname (hrest hok ▸ List.not_mem_nil) names
    · obtain ⟨e, herror⟩ := (DiskCache.meets_clear_astray fun dir hdir' => hdir ⟨dir, hdir'⟩).run.1
      cases hok.symm.trans herror
  · exact (hswept (hclear.anchored _ .refl)).2 hclear
  · intro root holder result' d' hsite hasked
    have hrun := hasked.eq_run
    have hrefused := (hafter.acquire_refused hsite ht holder).1
    rwa [hrun] at hrefused

/-- **A lock is held by one and names its holder.** In every state that comes about, at most one
lock is held on a directory, and each names its holder. Whoever asks for one gets it if it is free,
and is told who has it if not. A cache is cleared of all but its lock file. -/
theorem lock_exclusive {s : Holdings} (h : Reached Spares s) :
    s.held.Pairwise (fun t t' => t.dir ≠ t'.dir) ∧
    (∀ t ∈ s.held, ∃ text, t.root.text? = some text ∧
      t.lock.metadata? s.disk = some ⟨1, t.holder, text⟩) ∧
    (∀ root text dir holder result d, holder.Fits → Sited root dir s.disk → root.text? = some text →
      Asked root holder s.disk result d → Answered s root text dir holder result d) ∧
    ∀ t ∈ s.held, ∀ c, IsCacheOf t c → Spares s c →
      Cleared s t c (c.clear.run s.disk).1 (c.clear.run s.disk).2 := by
  have hsound := h.sound
  refine ⟨hsound.apart, fun t ht => ?_,
    fun root text dir holder result d hholder hsite htext hasked =>
      hsound.answered hholder hsite htext hasked,
    fun t ht c hcache hspares => hsound.clearing ht hcache hspares⟩
  have hstands := hsound.stands t ht
  obtain ⟨text, htext, -⟩ := hstands.signed
  exact ⟨text, htext, hstands.signed.metadata?_eq hsound.proper hstands.fits htext t.lock.path⟩

/-! ## Runs -/

/-- Somebody asks for a lock. -/
def Holdings.ask (s : Holdings) (root : OsPath) (holder : LockHolder) (dir : Place) : Holdings :=
  match (acquire root holder).run s.disk with
  | (.ok lock, d) => ⟨d, ⟨lock, holder, root, dir⟩ :: s.held⟩
  | (.error _, d) => ⟨d, s.held⟩

/-- A cache is cleared. -/
def Holdings.clear (s : Holdings) (c : DiskCache) : Holdings := ⟨(c.clear.run s.disk).2, s.held⟩

theorem Reached.ask {clears : Holdings → DiskCache → Prop} {s : Holdings} (h : Reached clears s)
    {root : OsPath} {holder : LockHolder} {dir : Place} (hholder : holder.Fits)
    (hsite : Sited root dir s.disk) : Reached clears (s.ask root holder dir) := by
  have hasked : Asked root holder s.disk _ _ := .lock
  unfold Holdings.ask
  generalize (acquire root holder).run s.disk = ran at hasked ⊢
  obtain ⟨result, d⟩ := ran
  cases result with
  | ok lock => exact h.step (.granted hholder hsite hasked)
  | error e => exact h.step (.refused hholder hsite hasked)

/-- A root that leads to a directory without a lock file. -/
def Vacant (root : OsPath) (dir : Place) (d : Disk) : Prop :=
  d.dirAt root = .ok dir ∧ d.at? (dir ++ [fileName]) = none

theorem Vacant.sited {root : OsPath} {dir : Place} {d : Disk} (h : Vacant root dir d)
    (htext : ∃ text, root.text? = some text) (hfits : (pathIn root).length < Disk.pathLimit) :
    Sited root dir d :=
  .of_dirAt htext hfits h.1 fun item hitem => by cases h.2.symm.trans hitem

theorem spares_of_alone {s : Holdings} {t : Tenure} {c : DiskCache} (hheld : s.held = [t])
    (hdir : s.disk.dirAt c.root = .ok t.dir) : Spares s c := by
  intro dir hdir' t' ht'
  cases hdir'.symm.trans hdir
  rw [hheld, List.mem_singleton] at ht'
  subst ht'
  exact Disk.not_inside_self _

def outerName : Bytes := Bytes.ofText "c"

def blockedName : Bytes := Bytes.ofText "b"

def innerName : Bytes := Bytes.ofText "s"

/-- A directory with two others in it; one of them has a directory in the place of its lock file. -/
def nested : Holdings where
  disk := [[outerName], [outerName, blockedName], [outerName, blockedName, fileName],
    [outerName, innerName]].foldl (fun d place => (DiskOp.makeDir place).apply d) {}
  held := []

def outer : OsPath := outerName

def inner : OsPath := outer.push innerName

def blocked : OsPath := outer.push blockedName

/-- The outer directory, by way of one in it. -/
def detour : OsPath := blocked.push (Bytes.ofText "..")

theorem reached_nested {clears : Holdings → DiskCache → Prop} : Reached clears nested := by
  have haccepted {name : Bytes} (h : name = outerName ∨ name = blockedName ∨ name = innerName) :
      Disk.Accepted name := by
    rcases h with rfl | rfl | rfl <;>
      exact ⟨OsPath.isName_ofText (by decide) (by decide) (by decide) (by decide), by decide,
        by decide⟩
  refine .start ?_ fun n hn => SortedSet.not_mem_empty n hn
  have h₁ := @Disk.Proper.makeDir _ [] _ .empty rfl (haccepted (.inl rfl))
  have h₂ := @Disk.Proper.makeDir _ [outerName] _ h₁ (by cbv) (haccepted (.inr (.inl rfl)))
  have h₃ := @Disk.Proper.makeDir _ [outerName, blockedName] _ h₂ (by cbv) accepted_fileName
  exact @Disk.Proper.makeDir _ [outerName] _ h₃ (by cbv) (haccepted (.inr (.inr rfl)))

/-- A cache whose lock is the first that was granted. -/
def cacheOf (root : OsPath) : DiskCache := ⟨root, .standard, ⟨pathIn root, 0⟩⟩

/-- The lock of the outer root. -/
def outerLock : Tenure := ⟨⟨pathIn outer, 0⟩, ⟨"first", 1, 1⟩, outer, [outerName]⟩

def opened : Holdings := nested.ask outer outerLock.holder [outerName]

theorem vacant_nested :
    Vacant outer [outerName] nested.disk ∧ Vacant detour [outerName] nested.disk :=
  ⟨⟨by cbv, by cbv⟩, by cbv, by cbv⟩

theorem reached_opened {clears : Holdings → DiskCache → Prop} : Reached clears opened :=
  reached_nested.ask ⟨by decide, by decide⟩
    (vacant_nested.1.sited ⟨"c", by decide⟩ (by decide))

theorem opened_eq : opened.held = [outerLock] ∧ opened.disk.dirAt outer = .ok [outerName] ∧
    Vacant inner [outerName, innerName] opened.disk := by cbv

/-- The lock of the outer root is not granted again, also when its cache has been cleared. -/
theorem lock_exclusive_outer :
    Reached Spares opened ∧
    ((acquire outer ⟨"second", 1, 2⟩).run opened.disk).1 =
      .error (.contention (some outerLock.holder) (pathIn outer)) ∧
    ((acquire outer ⟨"third", 1, 3⟩).run (opened.clear (cacheOf outer)).disk).1 =
      .error (.contention (some outerLock.holder) (pathIn outer)) := by
  obtain ⟨-, -, hanswered, hcleared⟩ := lock_exclusive reached_opened
  obtain ⟨hheld, hdir, -⟩ := opened_eq
  have hmem : outerLock ∈ opened.held := by
    rw [hheld]
    exact List.mem_singleton_self _
  have hspares : Spares opened (cacheOf outer) := spares_of_alone hheld hdir
  have hafter : Reached Spares (opened.clear (cacheOf outer)) :=
    reached_opened.step (.cleared hmem ⟨rfl, rfl⟩ hspares)
  refine ⟨reached_opened, ?_, ?_⟩
  · have hsite := reached_opened.sound.sited hmem hdir (by decide)
    exact ((hanswered outer "c" [outerName] _ _ _ ⟨by decide, by decide⟩ hsite (by decide)
      .lock).refused outerLock hmem rfl).1
  · have hsite := hafter.sound.sited (t := outerLock) hmem (by cbv) (by decide)
    exact (hcleared outerLock hmem (cacheOf outer) ⟨rfl, rfl⟩ hspares).locked _ _ _ _ hsite .lock

def crowded : Holdings := opened.ask inner ⟨"second", 1, 2⟩ [outerName, innerName]

def shared : Holdings :=
  (crowded.clear (cacheOf outer)).ask inner ⟨"third", 1, 3⟩ [outerName, innerName]

def detoured : Holdings := nested.ask detour ⟨"first", 1, 1⟩ [outerName]

theorem reached_crowded {clears : Holdings → DiskCache → Prop} : Reached clears crowded :=
  reached_opened.ask ⟨by decide, by decide⟩
    (opened_eq.2.2.sited ⟨"c/s", by decide⟩ (by decide))

theorem held_crowded : crowded.held =
    [⟨⟨pathIn inner, 1⟩, ⟨"second", 1, 2⟩, inner, [outerName, innerName]⟩, outerLock] := by cbv

theorem reached_shared : Reached (fun _ _ => True) shared := by
  have hmem : outerLock ∈ crowded.held := by
    rw [held_crowded]
    exact List.mem_cons_of_mem _ (List.mem_singleton_self _)
  let cleared := crowded.clear (cacheOf outer)
  -- the inner directory is made anew
  have hmade : ((Disk.makeDirs inner).run cleared.disk).1 = .ok () ∧
      Vacant inner [outerName, innerName] ((Disk.makeDirs inner).run cleared.disk).2 := by cbv
  obtain ⟨hok, hdir, hnone⟩ := hmade
  have hsite : Sited inner [outerName, innerName] cleared.disk :=
    ⟨⟨"c/s", by decide⟩, by decide, _, Prod.ext hok rfl, .inl hdir,
      fun item hitem => by cases hnone.symm.trans hitem⟩
  exact (reached_crowded.step (.cleared hmem ⟨rfl, rfl⟩ trivial)).ask ⟨by decide, by decide⟩ hsite

theorem dirs_shared : shared.held.map (·.dir) =
    [[outerName, innerName], [outerName, innerName], [outerName]] := by cbv

theorem reached_detoured {clears : Holdings → DiskCache → Prop} : Reached clears detoured :=
  reached_nested.ask ⟨by decide, by decide⟩
    (vacant_nested.2.sited ⟨"c/b/..", by decide⟩ (by decide))

/-- The entry that the path leads through is removed first; then there is no way to the others. -/
theorem detoured_eq :
    detoured.held = [⟨⟨pathIn detour, 0⟩, ⟨"first", 1, 1⟩, detour, [outerName]⟩] ∧
    ((cacheOf detour).clear.run detoured.disk).1 = .error (.io (detour.push innerName) .missing) ∧
    ((cacheOf detour).clear.run detoured.disk).2.at? [outerName, innerName] = some .dir := by cbv

theorem dirAt_detoured : detoured.disk.dirAt detour = .ok [outerName] := by cbv

theorem acquire_blocked : ((Disk.makeDirs blocked).run nested.disk).1 = .ok () ∧
    ((acquire blocked ⟨"first", 1, 1⟩).run nested.disk).1 = .error (.openFile .isDirectory) := by
  cbv

/-- If directories are cleared with locked ones inside, two locks come to be held on one of them. A
cache whose path leads through an entry of its own cannot be cleared, and a root whose lock file
cannot be opened cannot be locked. -/
theorem lock_shared :
    (Reached (fun _ _ => True) shared ∧ ¬shared.held.Pairwise fun t t' => t.dir ≠ t'.dir) ∧
    (Reached (fun _ _ => True) detoured ∧
      (∃ t ∈ detoured.held, IsCacheOf t (cacheOf detour)) ∧ Spares detoured (cacheOf detour) ∧
      ((cacheOf detour).clear.run detoured.disk).1 = .error (.io (detour.push innerName) .missing) ∧
      ((cacheOf detour).clear.run detoured.disk).2.at? [outerName, innerName] = some .dir) ∧
    Reached (fun _ _ => True) nested ∧ nested.held = [] ∧
      ((Disk.makeDirs blocked).run nested.disk).1 = .ok () ∧
      ((acquire blocked ⟨"first", 1, 1⟩).run nested.disk).1 = .error (.openFile .isDirectory) := by
  obtain ⟨hheld, hclear⟩ := detoured_eq
  refine ⟨⟨reached_shared, fun hapart => ?_⟩,
    ⟨reached_detoured, ?_, spares_of_alone hheld dirAt_detoured, hclear⟩, reached_nested, rfl,
    acquire_blocked⟩
  · have hapart := List.pairwise_map.2 hapart
    rw [dirs_shared] at hapart
    exact absurd rfl ((List.pairwise_cons.1 hapart).1 _ List.mem_cons_self)
  · rw [hheld]
    exact ⟨_, List.mem_singleton_self _, rfl, rfl⟩

end Rebuild.CacheLock
