import Rebuild.Proofs.Cache.Reached
import Rebuild.Proofs.Cache.Succeeding

/-!
# Opening a cache

A cache can be opened where a directory is held on to, unless somebody has locked it:
the lock file is made or taken over, and nothing else changes. As long as the cache is
open the lock is on the file that it was taken on, and once it is released the cache
can be opened again.

* `CacheLock.Free`, `CacheLock.Held`: a lock that can be taken, and one that has been.
* `CacheLock.meets_acquire_ok`: a free lock can be taken.
* `DiskCache.openIn_ok`: so the cache can be opened.
* `Reached.of_flat`: where there is nothing else, nothing is stored then.
-/
namespace Rebuild
open DiskM

namespace CacheLock

variable {d d' : Disk} {root : OsPath} {dir : Place} {serial : Nat}

/-- A root whose lock file has a path that the operating system takes, and that can be written down
in it. -/
structure Lockable (root : OsPath) : Prop where
  limits : Disk.WithinLimits root [fileName]
  text : ∃ text, root.text? = some text

/-- The lock file is missing, or it is a file that nobody has locked. -/
def Free (dir : Place) (d : Disk) : Prop :=
  (d.at? (dir ++ [fileName]) = none ∧ d.locked.contains d.serials = false) ∨
    ∃ serial content, d.at? (dir ++ [fileName]) = some (.file serial content) ∧
      d.locked.contains serial = false

/-- A lock that was taken on the lock file of a root. -/
structure Held (root : OsPath) (dir : Place) (lock : CacheLock) (d : Disk) : Prop where
  path : lock.path = pathIn root
  file : ∃ content, d.at? (dir ++ [fileName]) = some (.file lock.serial content)

theorem Held.congr {lock : CacheLock} (h : Held root dir lock d)
    (hat : d'.at? (dir ++ [fileName]) = d.at? (dir ++ [fileName])) : Held root dir lock d' :=
  ⟨h.path, hat ▸ h.file⟩

theorem Held.free_release {lock : CacheLock} (h : Held root dir lock d) :
    Free dir (lock.release d) := by
  obtain ⟨content, hfile⟩ := h.file
  refine .inr ⟨lock.serial, content, hfile, ?_⟩
  show (d.locked.erase lock.serial).contains lock.serial = false
  rw [SortedSet.contains_erase]
  simp

theorem meets_openFile_ok (h : d.Footing root dir) (hlimits : Disk.WithinLimits root [fileName])
    (hfree : Free dir d) :
    (openFile (pathIn root)).Meets d fun result d' => ∃ serial content, result = .ok serial ∧
      d'.at? (dir ++ [fileName]) = some (.file serial content) ∧
      d'.locked.contains serial = false := by
  have hsingle : [fileName] ≠ [] := List.cons_ne_nil _ _
  have hparent : d.at? (dir ++ [fileName].dropLast) = some .dir := by
    rw [List.dropLast_singleton, List.append_nil, h.at?_dir]
  have hresolve := h.resolve_eq hlimits hsingle hparent true
  unfold openFile
  rw [pathIn_eq]
  refine .ask_bind (fun found hfound => ?_) fun e he => by cases hresolve.symm.trans he
  cases hresolve.symm.trans hfound
  dsimp only
  rcases hfree with ⟨hnone, hlocked⟩ | ⟨serial, content, hfile, hlocked⟩
  · rw [hnone]
    have hplace : dir ++ [fileName] ≠ [] := List.append_ne_nil_of_right_ne_nil _ hsingle
    refine .disk_bind (.change_bind (meets_pure ⟨d.serials, [], rfl, ?_, hlocked⟩))
    rw [DiskOp.at?_apply_makeFile d hplace, if_pos rfl]
  · rw [hfile]
    exact meets_pure ⟨serial, content, rfl, hfile, hlocked⟩

/-- Writing a lock file that is there: it stays the same file. -/
theorem meets_writeLock (h : d.Footing root dir) (hlimits : Disk.WithinLimits root [fileName])
    {old : Bytes} (hfile : d.at? (dir ++ [fileName]) = some (.file serial old)) (content : Bytes) :
    (Disk.writeFile (pathIn root) content).Meets d fun result d' => result = .ok () ∧
      d'.at? (dir ++ [fileName]) = some (.file serial content) := by
  have hsingle : [fileName] ≠ [] := List.cons_ne_nil _ _
  have hparent : d.at? (dir ++ [fileName].dropLast) = some .dir := by
    rw [List.dropLast_singleton, List.append_nil, h.at?_dir]
  have hresolve := h.resolve_eq hlimits hsingle hparent true
  rw [pathIn_eq]
  refine .ask_bind (fun found hfound => ?_) fun e he => by cases hresolve.symm.trans he
  cases hresolve.symm.trans hfound
  dsimp only
  rw [hfile]
  refine meets_change ⟨rfl, ?_⟩
  rw [DiskOp.at?_apply_overwrite d (List.append_ne_nil_of_right_ne_nil _ hsingle) hfile, if_pos rfl]

theorem meets_acquire_ok (h : d.Footing root dir) (hroot : Lockable root) (hfree : Free dir d)
    (holder : LockHolder) :
    (acquire root holder).Meets d fun result d' =>
      ∃ lock, result = .ok lock ∧ Held root dir lock d' := by
  obtain ⟨text, htext⟩ := hroot.text
  refine .bind (Disk.meets_makeDirs_there h.dirAt_eq).mapError ?_ ?_
  · intro _ d₁ ⟨_, _, _, heq⟩
    subst heq
    refine .bind ((meets_openFile h).and (meets_openFile_ok h hroot.limits hfree)).mapError ?_ ?_
    · intro serial d₂ ⟨ended, heq, htaken, serial', content, hok, hfile, hlocked⟩
      subst hok
      cases heq
      refine .disk_bind ?_
      dsimp only
      rw [if_neg (by rw [hlocked]; nofun)]
      rw [sign_of_text htext]
      refine .bind (meets_writeLock htaken.footing hroot.limits hfile _).mapError ?_ ?_
      · intro _ d₃ ⟨_, _, _, hfile₃⟩
        exact .modify_bind (g := fun d => d.lock serial) (meets_pure ⟨_, rfl, rfl, _, hfile₃⟩)
      · intro e d₃ ⟨_, heq, hok, _⟩
        subst hok
        cases heq
    · intro e d₂ ⟨_, heq, _, _, _, hok, _⟩
      subst hok
      cases heq
  · intro e d₁ ⟨_, heq, hok, _⟩
    subst hok
    cases heq

end CacheLock

namespace DiskCache
open CacheLock

variable {ρ : Type} {root : OsPath} {dir : Place} {t : Traced (Site ρ)}

theorem openIn_ok (h : t.world.disk.Footing root dir) (hroot : Lockable root)
    (hfree : Free dir t.world.disk) (process started : Nat) :
    ∃ c t', openIn Site.diskPart root .standard process started t = (.ok c, t') ∧
      Held root dir c.lock t'.world.disk := by
  obtain ⟨lock, hlock, hheld⟩ :=
    (meets_acquire_ok h hroot hfree ⟨holderName, process, started⟩).run
  have hpart : Site.diskPart.get t.world = t.world.disk := rfl
  unfold openIn CacheLock.acquireIn
  simp only [Action.bind_apply, Action.change_apply, Part.change, hpart]
  generalize (CacheLock.acquire root ⟨holderName, process, started⟩).run t.world.disk = ran
    at hlock hheld ⊢
  obtain ⟨result, d⟩ := ran
  cases hlock
  exact ⟨_, _, rfl, hheld⟩

/-- Where a directory holds nothing but a lock file, a cache is opened with nothing stored. -/
theorem Reached.of_flat {c : DiskCache} {t' : Traced (Site ρ)} {process started : Nat}
    (hdir : t.world.disk.dirAt root = .ok dir)
    (hflat : ∀ place, dir.Inside place → t.world.disk.at? place = none ∨
      place = dir ++ [fileName] ∧
        ∃ serial content, t.world.disk.at? place = some (.file serial content))
    (hopened : openIn Site.diskPart root .standard process started t = (.ok c, t'))
    (hheld : Held root dir c.lock t'.world.disk) : Reached root dir c t'.world [] := by
  have htaken := taken_of_openIn (footing_of_flat hdir hflat) hopened
  refine .opened hopened htaken.footing.dirAt_eq ?_
  intro place hplace
  obtain ⟨name, rest, rfl⟩ := hplace
  obtain ⟨content, hfile⟩ := hheld.file
  by_cases hname : name = fileName
  · subst hname
    cases rest with
    | nil => exact .inr ⟨rfl, _, content, hfile⟩
    | cons first more =>
      have hnot : t'.world.disk.at? (dir ++ [fileName]) ≠ some .dir := by
        rw [hfile]
        nofun
      exact .inl (htaken.footing.at?_eq_none hnot
        ⟨first, more, List.append_cons dir fileName (first :: more)⟩)
  · refine .inl ?_
    rw [List.append_cons, htaken.entries name hname rest, ← List.append_cons]
    rcases hflat _ (Disk.inside_append dir (List.cons_ne_nil name rest)) with hnone | ⟨heq, -⟩
    · exact hnone
    · exact absurd (List.cons.inj (List.append_cancel_left heq)).1 hname

end DiskCache

end Rebuild
