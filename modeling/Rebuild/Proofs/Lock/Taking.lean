import Rebuild.Proofs.Cache.Opening
import Rebuild.Proofs.Disk.Making
import Rebuild.Proofs.Json.RoundTrip

/-!
# Taking a lock

Whether a lock can be taken depends on the file that a root's lock lies on, and on nothing that
it says. If the file is locked already, whoever asks is told what it says, which is read back
as it was written. If not, it says afterwards who has taken the lock, and nothing else.

* `LockMetadata.ofText?_text`: what a lock file says is read back.
* `CacheLock.Sited`: a root that can be locked, and its directory.
* `CacheLock.Signed`: a lock file that names its holder.
* `CacheLock.run_acquire_refused`, `CacheLock.run_acquire_taken`: what asking for a lock does.
-/
namespace Rebuild
open DiskM

/-! ## What a lock file says -/

/-- The numbers of a holder are as large as their fields allow. -/
structure LockHolder.Fits (h : LockHolder) : Prop where
  process : h.process < Nat.pow 2 32
  started : h.started < Nat.pow 2 64

theorem LockMetadata.ofText?_text {m : LockMetadata} (hversion : m.version < Nat.pow 2 32)
    (hholder : m.holder.Fits) : ofText? m.text = some m := by
  let members : List (String × Json) := [
    ("version", .integer m.version), ("pid", .integer m.holder.process),
    ("started_at_unix", .integer m.holder.started), ("holder", .string m.holder.name),
    ("cache_root", .string m.root)]
  have hparse : Json.Tree.parse m.text = some (Json.tree (.object members)) :=
    Json.Tree.parse_pretty rfl
  have hfields : (Json.tree (.object members)).fields?
      ["version", "pid", "started_at_unix", "holder", "cache_root"] =
      some (members.map fun member => member.2.tree) := Json.Tree.fields?_tree (by simp [members])
  unfold ofText?
  simp only [hparse, bind, Option.bind_some, hfields]
  simp [members, Json.Tree.unsigned?_tree, hversion, hholder.process, hholder.started]

namespace CacheLock

variable {d d' : Disk} {root : OsPath} {dir : Place} {serial : Nat} {holder : LockHolder}

/-- The lock file in a directory says who holds the lock, and nothing else. -/
def Signed (dir : Place) (serial : Nat) (holder : LockHolder) (root : OsPath) (d : Disk) : Prop :=
  ∃ text, root.text? = some text ∧ d.at? (dir ++ [fileName]) =
    some (.file serial (Bytes.ofText (LockMetadata.text ⟨1, holder, text⟩)))

theorem Signed.congr (h : Signed dir serial holder root d)
    (hat : d'.at? (dir ++ [fileName]) = d.at? (dir ++ [fileName])) :
    Signed dir serial holder root d' := by
  obtain ⟨text, htext, hfile⟩ := h
  exact ⟨text, htext, hat.trans hfile⟩

theorem one_lt : 1 < Nat.pow 2 32 := by decide

theorem Signed.metadata?_eq (h : Signed dir serial holder root d) (hproper : d.Proper)
    (hholder : holder.Fits) {text : String} (htext : root.text? = some text) (path : OsPath) :
    metadata? ⟨path, serial⟩ d = some ⟨1, holder, text⟩ := by
  obtain ⟨text', htext', hfile⟩ := h
  cases htext.symm.trans htext'
  have hread :
      LockMetadata.ofText? (LockMetadata.text ⟨1, holder, text⟩) = some ⟨1, holder, text⟩ :=
    LockMetadata.ofText?_text one_lt hholder
  unfold metadata?
  simp only [hproper.contentOf?_eq hfile, bind, Option.bind_some, Bytes.text?_ofText, hread]

/-! ## Roots that can be locked -/

/-- The root is text, it can be made and leads to a directory then, and its lock file can be opened:
the operating system takes the path, and there is nothing else in its place. -/
structure Sited (root : OsPath) (dir : Place) (d : Disk) : Prop where
  text : ∃ text, root.text? = some text
  fits : (pathIn root).length < Disk.pathLimit
  made : ∃ d', (Disk.makeDirs root).run d = (.ok (), d') ∧ Disk.Leads root dir d' ∧
    ∀ item, d'.at? (dir ++ [fileName]) = some item → ∃ serial content, item = .file serial content

theorem accepted_fileName : Disk.Accepted fileName := ⟨isName_fileName, by decide, by decide⟩

theorem Sited.limits (h : Sited root dir d) : Disk.WithinLimits root [fileName] := by
  refine ⟨List.forall_mem_singleton.2 accepted_fileName, ?_⟩
  have hfits := h.fits
  rwa [pathIn_eq] at hfits

theorem resolve_pathIn (h : Disk.Leads root dir d) (hlimits : Disk.WithinLimits root [fileName])
    (hregular : ∀ item, d.at? (dir ++ [fileName]) = some item →
      ∃ serial content, item = .file serial content) :
    d.resolve true (pathIn root) = .ok ⟨dir ++ [fileName], d.at? (dir ++ [fileName])⟩ := by
  rw [pathIn_eq]
  refine h.resolve_name hlimits fun target _ hlink => ?_
  obtain ⟨_, _, hfile⟩ := hregular _ hlink
  cases hfile

theorem resolve_pathIn_of_file (h : Disk.Leads root dir d)
    (hlimits : Disk.WithinLimits root [fileName]) {content : Bytes}
    (hfile : d.at? (dir ++ [fileName]) = some (.file serial content)) :
    d.resolve true (pathIn root) = .ok ⟨dir ++ [fileName], some (.file serial content)⟩ := by
  rw [resolve_pathIn h hlimits fun item hitem => ?_, hfile]
  cases hfile.symm.trans hitem
  exact ⟨serial, content, rfl⟩

theorem Signed.holderAt_eq {root' : OsPath} (h : Signed dir serial holder root d)
    (hholder : holder.Fits) (hleads : Disk.Leads root' dir d)
    (hlimits : Disk.WithinLimits root' [fileName]) :
    holderAt d (pathIn root') = some holder := by
  obtain ⟨text, -, hfile⟩ := h
  have hread : d.readText (pathIn root') = .ok (LockMetadata.text ⟨1, holder, text⟩) := by
    unfold Disk.readText Disk.read
    rw [resolve_pathIn_of_file hleads hlimits hfile]
    simp only [bind, Except.bind, pure, Except.pure, Bytes.text?_ofText]
  have htext :
      LockMetadata.ofText? (LockMetadata.text ⟨1, holder, text⟩) = some ⟨1, holder, text⟩ :=
    LockMetadata.ofText?_text one_lt hholder
  unfold holderAt
  simp only [hread, Except.toOption, bind, Option.bind_some, htext]
  rfl

/-! ## Asking for a lock -/

/-- The lock file is there after it was opened: the one that was there, or a new one. -/
theorem meets_openFile_sited (h : d.Proper) (hleads : Disk.Leads root dir d)
    (hlimits : Disk.WithinLimits root [fileName])
    (hregular : ∀ item, d.at? (dir ++ [fileName]) = some item →
      ∃ serial content, item = .file serial content) :
    (openFile (pathIn root)).Meets d fun result d' => d'.Proper ∧ Disk.Keeps d d' ∧
      (∀ q, q ≠ dir ++ [fileName] → d'.at? q = d.at? q) ∧
      ∃ serial content, result = .ok serial ∧
        d'.at? (dir ++ [fileName]) = some (.file serial content) ∧
        (d.at? (dir ++ [fileName]) = some (.file serial content) ∨ serial = d.serials) := by
  have hresolve := resolve_pathIn hleads hlimits hregular
  unfold openFile
  refine .ask_bind (fun found hfound => ?_) fun e he => by cases hresolve.symm.trans he
  cases hresolve.symm.trans hfound
  dsimp only
  cases hitem : d.at? (dir ++ [fileName]) with
  | some item =>
    obtain ⟨serial, content, rfl⟩ := hregular item hitem
    exact meets_pure ⟨h, .refl, fun _ _ => rfl, serial, content, rfl, hitem, .inl rfl⟩
  | none =>
    have hne := Disk.named_ne_nil dir fileName
    have hat := DiskOp.at?_apply_makeFile d hne []
    refine .disk_bind (.change_bind (meets_pure ⟨?_, Disk.keeps_makeFile hne _, ?_, ?_⟩))
    · exact h.makeFile hleads.at?_dir accepted_fileName hitem []
    · intro q hq
      rw [hat, if_neg hq]
    · exact ⟨d.serials, [], rfl, by rw [hat, if_pos rfl], .inr rfl⟩

/-- Whoever asks for a lock that is held is told who holds it. Nothing happens to the disk but that
the root is made. -/
theorem run_acquire_refused {root' : OsPath} {other : LockHolder} (h : d.Proper)
    (hsite : Sited root dir d) (hsigned : Signed dir serial other root' d) (hother : other.Fits)
    (hlocked : serial ∈ d.locked) (holder : LockHolder) :
    ((acquire root holder).run d).1 = .error (.contention (some other) (pathIn root)) ∧
      Disk.Made d ((acquire root holder).run d).2 := by
  obtain ⟨d₁, hrun, hleads, hregular⟩ := hsite.made
  have hmade := (Disk.meets_makeDirs_anywhere h root).run.1
  rw [hrun] at hmade
  have hsigned : Signed dir serial other root' d₁ := by
    obtain ⟨text, htext, hfile⟩ := hsigned
    exact ⟨text, htext, hmade.grew.at?_eq hfile⟩
  unfold acquire
  refine run_bind (p := fun (result : Except LockError CacheLock) d' =>
    result = .error (.contention (some other) (pathIn root)) ∧ Disk.Made d d')
    (run_mapError hrun) ?_
  dsimp only
  obtain ⟨text, -, hfile⟩ := id hsigned
  have hopen : (openFile (pathIn root)).Meets d₁ fun result d' =>
      result = .ok serial ∧ d' = d₁ := by
    have hresolve := resolve_pathIn_of_file hleads hsite.limits hfile
    unfold openFile
    refine .ask_bind (fun found hfound => ?_) fun e he => by cases hresolve.symm.trans he
    cases hresolve.symm.trans hfound
    exact meets_pure ⟨rfl, rfl⟩
  refine .bind hopen.mapError ?_ fun e d₂ ⟨_, heq, hok, _⟩ => by subst hok; cases heq
  rintro n d₂ ⟨_, heq, rfl, rfl⟩
  cases heq
  refine .disk_bind ?_
  have hheld : d₂.locked.contains serial = true := by
    rw [hmade.locked]
    exact hlocked
  rw [if_pos hheld]
  refine .disk_bind (.bind (p := fun result d' => result = .error (.contention (some other)
    (pathIn root)) ∧ d' = d₂) (meets_throw ⟨?_, rfl⟩) (fun _ _ hd => nomatch hd.1) ?_)
  · rw [hsigned.holderAt_eq hother hleads hsite.limits]
  · rintro e d₃ ⟨heq, rfl⟩
    cases heq
    exact ⟨rfl, hmade⟩

/-- The lock file is written anew: it stays the same file. -/
theorem meets_rewrite (h : d.Proper) (hleads : Disk.Leads root dir d)
    (hlimits : Disk.WithinLimits root [fileName]) {old : Bytes}
    (hfile : d.at? (dir ++ [fileName]) = some (.file serial old)) (content : Bytes) :
    (Disk.writeFile (pathIn root) content).Meets d fun result d' => result = .ok () ∧
      d'.Proper ∧ Disk.Keeps d d' ∧ (∀ q, q ≠ dir ++ [fileName] → d'.at? q = d.at? q) ∧
      d'.at? (dir ++ [fileName]) = some (.file serial content) := by
  have hne := Disk.named_ne_nil dir fileName
  have hat := DiskOp.at?_apply_overwrite d hne hfile content
  have hresolve := resolve_pathIn_of_file hleads hlimits hfile
  refine .ask_bind (fun found hfound => ?_) fun e he => by cases hresolve.symm.trans he
  cases hresolve.symm.trans hfound
  refine meets_change ⟨rfl, h.overwrite hleads.at?_dir accepted_fileName hfile content,
    Disk.keeps_overwrite hne content, fun q hq => ?_, ?_⟩
  · rw [hat, if_neg hq]
  · rw [hat, if_pos rfl]

/-- What a lock that was taken leaves: its file names the holder, and all else is as it was. -/
structure Granted (root : OsPath) (dir : Place) (holder : LockHolder) (d : Disk) (lock : CacheLock)
    (d' : Disk) : Prop where
  path : lock.path = pathIn root
  proper : d'.Proper
  signed : Signed dir lock.serial holder root d'
  fresh : lock.serial ∉ d.locked
  locked : ∀ n, n ∈ d'.locked ↔ n = lock.serial ∨ n ∈ d.locked
  others : ∀ q item, q ≠ dir ++ [fileName] → d.at? q = some item → d'.at? q = some item

theorem Granted.earlier {d₁ : Disk} {lock : CacheLock} (h : Granted root dir holder d₁ lock d')
    (hlocked : d₁.locked = d.locked)
    (hothers : ∀ q item, q ≠ dir ++ [fileName] → d.at? q = some item → d₁.at? q = some item) :
    Granted root dir holder d lock d' := by
  refine ⟨h.path, h.proper, h.signed, hlocked ▸ h.fresh, fun n => ?_, fun q item hq hitem =>
    h.others q item hq (hothers q item hq hitem)⟩
  rw [h.locked, hlocked]

theorem meets_grant (h : d.Proper) (hleads : Disk.Leads root dir d)
    (hlimits : Disk.WithinLimits root [fileName]) {old : Bytes} {text : String}
    (htext : root.text? = some text) (hfile : d.at? (dir ++ [fileName]) = some (.file serial old))
    (hfree : serial ∉ d.locked) (holder : LockHolder) :
    DiskM.Meets (do
      sign (pathIn root) root holder
      modifyThe Journal fun j => { j with disk := j.disk.lock serial }
      return ⟨pathIn root, serial⟩ : DiskM LockError CacheLock) d fun result d' =>
        ∃ lock, result = .ok lock ∧ Granted root dir holder d lock d' := by
  rw [sign_of_text htext]
  refine .bind (meets_rewrite h hleads hlimits hfile _).mapError ?_ ?_
  · rintro _ d₁ ⟨_, -, -, hproper, hkeeps, hothers, hfile⟩
    refine .modify_bind (g := fun d => d.lock serial) (meets_pure ⟨_, rfl, rfl, ?_, ?_, hfree,
      fun n => ?_, fun q item hq hitem => ?_⟩)
    · exact hproper.congr rfl rfl
    · exact ⟨text, htext, hfile⟩
    · show n ∈ d₁.locked.insert serial ↔ _
      rw [SortedSet.mem_insert, hkeeps.locked]
    · exact (hothers q hq).trans hitem
  · rintro e d₁ ⟨_, heq, rfl, -⟩
    cases heq

/-- Whoever asks for a lock that nobody holds gets it, whatever its file said. -/
theorem run_acquire_taken (h : d.Proper) (hsite : Sited root dir d)
    (hfree : ∀ serial content, d.at? (dir ++ [fileName]) = some (.file serial content) →
      serial ∉ d.locked) (hnew : d.serials ∉ d.locked) (holder : LockHolder) :
    ∃ lock, ((acquire root holder).run d).1 = .ok lock ∧
      Granted root dir holder d lock ((acquire root holder).run d).2 := by
  obtain ⟨text, htext⟩ := hsite.text
  obtain ⟨d₁, hrun, hleads, hregular⟩ := hsite.made
  have hmade := (Disk.meets_makeDirs_anywhere h root).run.1
  rw [hrun] at hmade
  unfold acquire
  refine run_bind (p := fun (result : Except LockError CacheLock) d' =>
    ∃ lock, result = .ok lock ∧ Granted root dir holder d lock d') (run_mapError hrun) ?_
  refine .bind (meets_openFile_sited hmade.proper hleads hsite.limits hregular).mapError ?_ ?_
  · rintro serial d₂ ⟨_, heq, hproper, hkeeps, hothers, _, content, rfl, hfile, hfrom⟩
    cases heq
    have hleads₂ : Disk.Leads root dir d₂ := hleads.mono fun q item hitem hq => by
      rwa [hothers q fun e => ?_]
      obtain ⟨_, _, hregular⟩ := hregular item (e ▸ hq)
      exact hitem _ _ hregular
    have hlocked : d₂.locked = d.locked := hkeeps.locked.trans hmade.locked
    -- the file is the one that was there, or has a new number
    have hunlocked : serial ∉ d₂.locked := by
      rw [hlocked]
      rcases hfrom with hthere | rfl
      · rcases hmade.grew (dir ++ [fileName]) with hsame | ⟨-, -, hdir⟩
        · exact hfree serial content (hsame ▸ hthere)
        · cases hdir.symm.trans hthere
      · rw [hmade.same]
        exact hnew
    have hcontains : ¬d₂.locked.contains serial = true := hunlocked
    refine .disk_bind ?_
    rw [if_neg hcontains]
    refine (meets_grant hproper hleads₂ hsite.limits htext hfile hunlocked holder).mono ?_
    rintro result d' ⟨lock, hok, hgranted⟩
    refine ⟨lock, hok, hgranted.earlier hlocked fun q item hq hitem => ?_⟩
    exact (hothers q hq).trans (hmade.grew.at?_eq hitem)
  · rintro e d₂ ⟨_, heq, -, -, -, _, _, rfl, -⟩
    cases heq

end CacheLock

end Rebuild
