import Rebuild.Proofs.Disk.Removing
import Rebuild.Proofs.Disk.Succeeding

/-!
# Disks that a file system can hold

On a real disk names are ones that the operating system takes, whatever lies somewhere lies in
a directory, and files are told apart by their serial numbers. Changes that put something into a
directory, or take something away with all that lies below it, keep the disk so.

* `Disk.Keeps`: what no change to the items touches.
* `Disk.Proper`: a disk that a file system can hold.
* `Proper.put`, `Proper.pruned`: changes that keep it so.
* `Proper.contentOf?_eq`: a file is found by its serial number.
-/
namespace Rebuild.Disk
open DiskM

/-! ## What changes leave alone -/

/-- The locks and the root are as they were, and no serial number will come twice. -/
structure Keeps (d d' : Disk) : Prop where
  locked : d'.locked = d.locked
  serials : d.serials ≤ d'.serials
  root : d'.items.get? [] = d.items.get? []

section Keeping

variable {d d' : Disk} {place : Place}

theorem Keeps.refl : Keeps d d := ⟨rfl, Nat.le_refl _, rfl⟩

theorem Keeps.trans {d'' : Disk} (h : Keeps d d') (h' : Keeps d' d'') : Keeps d d'' :=
  ⟨h'.locked.trans h.locked, Nat.le_trans h.serials h'.serials, h'.root.trans h.root⟩

theorem keeps_makeDir (hplace : place ≠ []) : Keeps d ((DiskOp.makeDir place).apply d) :=
  ⟨rfl, Nat.le_refl _, SortedMap.get?_insert_of_ne hplace.symm⟩

theorem keeps_makeFile (hplace : place ≠ []) (content : Bytes) :
    Keeps d ((DiskOp.makeFile place content).apply d) :=
  ⟨rfl, Nat.le_succ _, SortedMap.get?_insert_of_ne hplace.symm⟩

theorem keeps_overwrite (hplace : place ≠ []) (content : Bytes) :
    Keeps d ((DiskOp.overwrite place content).apply d) := by
  unfold DiskOp.apply
  dsimp only
  split
  · exact ⟨rfl, Nat.le_refl _, SortedMap.get?_insert_of_ne hplace.symm⟩
  · exact .refl

theorem keeps_remove (hplace : place ≠ []) : Keeps d ((DiskOp.remove place).apply d) := by
  have hkept : Keeps d (d.keepContent place) := by
    unfold keepContent
    split
    · exact ⟨rfl, Nat.le_refl _, rfl⟩
    · exact .refl
  refine hkept.trans ⟨rfl, Nat.le_refl _, ?_⟩
  show ((d.keepContent place).items.erase place).get? [] = _
  rw [SortedMap.get?_erase, if_neg fun e => hplace.symm (Std.LawfulEqOrd.eq_of_compare e)]

theorem meets_removeAt_keeps (hplace : place ≠ []) :
    (removeAt place).Meets d fun _ d' => Keeps d d' := by
  have hne (names : List Bytes) : place ++ names ≠ [] :=
    List.append_ne_nil_of_left_ne_nil hplace names
  refine .disk_bind (.bind (p := fun _ d' => Keeps d d') (meets_forIn (fun _ d' => Keeps d d')
    (fun e rest d' hd => ?_) (fun _ hd => hd) _ _ .refl) (fun _ d' hd => ?_) fun _ _ hd => hd)
  · exact .change_bind (meets_pure (.inl ⟨rfl, hd.trans (keeps_remove (hne e.1))⟩))
  · exact meets_change (hd.trans (keeps_remove hplace))

end Keeping

/-! ## Proper disks -/

/-- A disk that a file system can hold. The root needs no entry, and a serial number is that of one
file and none to come. -/
structure Proper (d : Disk) : Prop where
  root : d.items.get? [] = none
  tree : d.IsTree []
  named : ∀ dir name, d.at? (dir ++ [name]) ≠ none → Accepted name
  numbered : ∀ place serial content, d.at? place = some (.file serial content) → serial < d.serials
  single : ∀ place other serial content content', d.at? place = some (.file serial content) →
    d.at? other = some (.file serial content') → other = place

variable {d d' : Disk} {dir place : Place} {name : Bytes} {item : Item}

theorem Proper.at?_eq_none (h : d.Proper) (hdir : d.at? dir ≠ some .dir)
    (hplace : dir.Inside place) : d.at? place = none :=
  h.tree.at?_eq_none hdir hplace

namespace Proper

/-! ## Changes that keep a disk proper -/

/-- Locks do not matter. -/
theorem congr (h : d.Proper) (hitems : d'.items = d.items) (hserials : d'.serials = d.serials) :
    d'.Proper := by
  have hat (q : Place) : d'.at? q = d.at? q := by
    unfold at?
    rw [hitems]
  refine ⟨hitems ▸ h.root, fun names name hsome => ?_, fun dir name hsome => ?_,
    fun place serial content hfile => ?_,
    fun place other serial content content' hplace hother => ?_⟩
  · rw [hat] at hsome ⊢
    exact h.tree names name hsome
  · exact h.named dir name (hat _ ▸ hsome)
  · rw [hserials]
    exact h.numbered place serial content (hat _ ▸ hfile)
  · exact h.single place other serial content content' (hat _ ▸ hplace) (hat _ ▸ hother)

/-- Something is put into a directory. If it is a file, its number is new or the one that the file
in its place had. -/
theorem put (h : d.Proper) (hdir : d.at? dir = some .dir) (hname : Accepted name)
    (hat : ∀ q, d'.at? q = if q = dir ++ [name] then some item else d.at? q)
    (hkeep : d.at? (dir ++ [name]) = some .dir → item = .dir) (hkeeps : Keeps d d')
    (hfile : ∀ serial content, item = .file serial content → serial < d'.serials ∧
      ∀ q content', d.at? q = some (.file serial content') → q = dir ++ [name]) : d'.Proper := by
  refine ⟨hkeeps.root.trans h.root, ?_, ?_, ?_, ?_⟩
  · intro names last hsome
    rw [List.nil_append] at hsome ⊢
    rw [hat] at hsome ⊢
    have habove : d.at? names = some .dir := by
      split at hsome
      next heq => rwa [(List.append_inj' heq rfl).1]
      next => exact h.tree names last hsome
    split
    next heq => rw [hkeep (heq ▸ habove)]
    next => exact habove
  · intro above last hsome
    rw [hat] at hsome
    split at hsome
    next heq =>
      have hlast : last = name := (List.cons.inj (List.append_inj' heq rfl).2).1
      exact hlast ▸ hname
    next => exact h.named above last hsome
  · intro q serial content hsome
    rw [hat] at hsome
    split at hsome
    next => exact (hfile serial content (Option.some.inj hsome)).1
    next => exact Nat.lt_of_lt_of_le (h.numbered q serial content hsome) hkeeps.serials
  · intro q r serial content content' hq hr
    rw [hat] at hq hr
    split at hq
    next heq =>
      split at hr
      next heq' => rw [heq, heq']
      next => exact ((hfile serial content (Option.some.inj hq)).2 r content' hr).trans heq.symm
    next =>
      split at hr
      next heq' =>
        exact heq'.trans ((hfile serial content' (Option.some.inj hr)).2 q content hq).symm
      next => exact h.single q r serial content content' hq hr

theorem empty : ({} : Disk).Proper := by
  have hnone {q : Place} (hq : q ≠ []) : ({} : Disk).at? q = none := if_neg hq
  have hnofile {q : Place} {serial : Nat} {content : Bytes} :
      ({} : Disk).at? q ≠ some (.file serial content) := by
    intro hfile
    by_cases hq : q = []
    · subst hq
      cases hfile
    · cases (hnone hq).symm.trans hfile
  refine ⟨rfl, fun names name hsome => ?_, fun dir name hsome => ?_,
    fun place serial content hfile => absurd hfile hnofile,
    fun place other serial content content' hfile => absurd hfile hnofile⟩
  · exact absurd (hnone (named_ne_nil names name)) hsome
  · exact absurd (hnone (named_ne_nil dir name)) hsome

theorem makeDir (h : d.Proper) (hdir : d.at? dir = some .dir) (hname : Accepted name) :
    ((DiskOp.makeDir (dir ++ [name])).apply d).Proper :=
  h.put hdir hname (DiskOp.at?_apply_makeDir d (named_ne_nil dir name)) (fun _ => rfl)
    (keeps_makeDir (named_ne_nil dir name)) fun _ _ => nofun

/-- A new file where nothing lies gets a number that no file has. -/
theorem makeFile (h : d.Proper) (hdir : d.at? dir = some .dir) (hname : Accepted name)
    (hnone : d.at? (dir ++ [name]) = none) (content : Bytes) :
    ((DiskOp.makeFile (dir ++ [name]) content).apply d).Proper := by
  refine h.put hdir hname (DiskOp.at?_apply_makeFile d (named_ne_nil dir name) content) ?_
    (keeps_makeFile (named_ne_nil dir name) content) ?_
  · intro hself
    cases hnone.symm.trans hself
  · intro serial content' hitem
    cases hitem
    exact ⟨Nat.lt_succ_self _, fun q old hq =>
      absurd (h.numbered q _ old hq) (Nat.lt_irrefl _)⟩

theorem overwrite (h : d.Proper) (hdir : d.at? dir = some .dir) (hname : Accepted name)
    {serial : Nat} {old : Bytes} (hfile : d.at? (dir ++ [name]) = some (.file serial old))
    (content : Bytes) : ((DiskOp.overwrite (dir ++ [name]) content).apply d).Proper := by
  have hkeeps := keeps_overwrite (d := d) (named_ne_nil dir name) content
  refine h.put hdir hname (DiskOp.at?_apply_overwrite d (named_ne_nil dir name) hfile content) ?_
    hkeeps ?_
  · intro hself
    cases hfile.symm.trans hself
  · intro serial' content' hitem
    cases hitem
    exact ⟨Nat.lt_of_lt_of_le (h.numbered _ _ old hfile) hkeeps.serials,
      fun q old' hq => h.single _ q _ old old' hfile hq⟩

theorem pruned (h : d.Proper) (hpruned : Pruned place d d') (hkeeps : Keeps d d') : d'.Proper := by
  have hkept {q : Place} {item : Item} (hq : d'.at? q = some item) :
      ¬place <+: q ∧ d.at? q = some item := by
    rw [hpruned] at hq
    split at hq
    · cases hq
    next hout => exact ⟨hout, hq⟩
  refine ⟨hkeeps.root.trans h.root, ?_, ?_, ?_, ?_⟩
  · intro names name hsome
    obtain ⟨item, hitem⟩ := Option.ne_none_iff_exists'.1 hsome
    obtain ⟨hout, hitem⟩ := hkept hitem
    have hparent : ¬place <+: names := fun e => hout (e.trans (List.prefix_append names [name]))
    rw [List.nil_append, hpruned, if_neg hparent]
    exact h.tree names name (by rw [hitem]; exact Option.some_ne_none _)
  · intro dir name hsome
    obtain ⟨item, hitem⟩ := Option.ne_none_iff_exists'.1 hsome
    exact h.named dir name (by rw [(hkept hitem).2]; exact Option.some_ne_none _)
  · intro q serial content hfile
    exact Nat.lt_of_lt_of_le (h.numbered q serial content (hkept hfile).2) hkeeps.serials
  · intro q r serial content content' hq hr
    exact h.single q r serial content content' (hkept hq).2 (hkept hr).2

/-! ## Files by their numbers -/

theorem exists_of_mem_values (h : d.Proper) (hmem : item ∈ d.items.values) :
    ∃ place, d.at? place = some item := by
  obtain ⟨⟨place, found⟩, hentry, rfl⟩ := List.mem_map.1 hmem
  have hget := (SortedMap.mem_entries_iff d.items place found).1 hentry
  refine ⟨place, (at?_of_ne_nil d fun hnil => ?_).trans hget⟩
  rw [hnil, h.root] at hget
  cases hget

theorem contentOf?_eq (h : d.Proper) {serial : Nat} {content : Bytes}
    (hfile : d.at? place = some (.file serial content)) : d.contentOf? serial = some content := by
  have hne : place ≠ [] := by
    rintro rfl
    cases hfile
  have hget := (at?_of_ne_nil d hne).symm.trans hfile
  have hmem : Item.file serial content ∈ d.items.values :=
    List.mem_map.2 ⟨_, (SortedMap.mem_entries_iff _ _ _).2 hget, rfl⟩
  unfold contentOf?
  generalize hfound : List.findSome? _ d.items.values = found
  cases found with
  | none =>
    have hnot := List.findSome?_eq_none_iff.1 hfound _ hmem
    simp at hnot
  | some content' =>
    obtain ⟨item, hitem, heq⟩ := List.exists_of_findSome?_eq_some hfound
    obtain ⟨other, hother⟩ := h.exists_of_mem_values hitem
    cases item with
    | file n old =>
      dsimp only at heq
      split at heq
      next hn =>
        cases heq
        subst hn
        have hplace := h.single place other n content content' hfile hother
        rw [hplace, hfile] at hother
        cases hother
        rfl
      next => cases heq
    | _ => cases heq

end Proper

end Rebuild.Disk
