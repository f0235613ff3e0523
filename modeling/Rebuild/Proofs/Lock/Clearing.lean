import Rebuild.Proofs.Lock.Taking
import Rebuild.Proofs.Path.Components

/-!
# Clearing a cache

A cache is cleared through the path of its root. One entry after the other is removed, whatever
it is, and the lock file stays. If the path does not need what is removed, and the operating
system takes the paths of the entries, nothing else is left; if something fails, the entries
that have not been removed yet are as they were.

* `Disk.nodup_children`: the names in a directory differ.
* `Disk.meets_strike`: removing what a path leads to, be it a directory or not.
* `DiskCache.Swept`, `DiskCache.Sweeping`: what is left of a directory, after each round.
* `DiskCache.meets_clear_swept`: what clearing leaves.
-/
namespace Rebuild
open DiskM

namespace Disk

variable {d d' : Disk} {root : OsPath} {dir place : Place} {name : Bytes}

theorem nodup_children (d : Disk) (dir : Place) : ((d.children dir).map Prod.fst).Nodup := by
  unfold children List.Nodup
  rw [List.pairwise_map, List.pairwise_filterMap]
  refine (pairwise_below d dir).imp fun {a b} hlt e he e' he' heq => ?_
  obtain ⟨p, item⟩ := a
  obtain ⟨q, item'⟩ := b
  dsimp only at he he'
  split at he
  next =>
    split at he'
    next =>
      cases he
      cases he'
      cases heq
      rw [Std.ReflOrd.compare_self] at hlt
      cases hlt
    next => cases he'
  next => cases he

theorem resolve_mono {follow : Bool} {path : OsPath} {found : Found}
    (h : d.resolve follow path = .ok found) (hsome : found.item ≠ none)
    (hkeep : ∀ place item, d.at? place = some item → d'.at? place = some item) :
    d'.resolve follow path = .ok found := by
  unfold resolve at h ⊢
  split at h
  · cases h
  next hnul =>
    split at h
    · cases h
    next hne =>
      split at h
      · cases h
      next hlength =>
        rw [if_neg hnul, if_neg hne, if_neg hlength]
        exact walk_mono h hsome hkeep

/-- Removing what is no directory removes all that lies below it: there is nothing. -/
theorem Proper.pruned_remove (h : d.Proper) (hplace : place ≠ []) {item : Item}
    (hitem : d.at? place = some item) (hdir : item ≠ .dir) :
    Pruned place d ((DiskOp.remove place).apply d) := by
  intro q
  rw [DiskOp.at?_apply_remove d hplace]
  by_cases hq : place <+: q
  · rw [if_pos hq]
    obtain ⟨rest, rfl⟩ := hq
    split
    · rfl
    next hother =>
      have hrest : rest ≠ [] := fun e => hother (by rw [e, List.append_nil])
      refine h.at?_eq_none (fun hself => ?_) (inside_append place hrest)
      exact hdir (Option.some.inj (hitem.symm.trans hself))
  · have hother : q ≠ place := fun e => hq (e ▸ List.prefix_rfl)
    rw [if_neg hq, if_neg hother]

/-- What a path leads to is removed with all that lies below it, or all is as it was. -/
theorem meets_strike (h : d.Proper) {path : OsPath} (hplace : place ≠ [])
    (hpath : ∀ q item, d.resolve false path = .ok ⟨q, some item⟩ →
      q = place ∧ d.at? place = some item) (isDir : Bool) :
    (if isDir = true then removeTree path else removeFile path).Meets d fun result d' =>
      ((∃ e, result = .error e) ∧ d' = d) ∨
        (result = .ok () ∧ Pruned place d d' ∧ Keeps d d') := by
  cases isDir with
  | true =>
    refine .ask_bind (fun found hfound => ?_) fun e _ => .inl ⟨⟨e, rfl⟩, rfl⟩
    obtain ⟨q, found⟩ := found
    cases found with
    | none => exact meets_throw (.inl ⟨⟨_, rfl⟩, rfl⟩)
    | some item =>
      obtain ⟨rfl, hitem⟩ := hpath q item hfound
      cases item with
      | dir =>
        exact ((meets_removeAt hplace).and (meets_removeAt_keeps hplace)).mono
          fun _ _ ⟨⟨hok, hpruned⟩, hkeeps⟩ => .inr ⟨hok, hpruned, hkeeps⟩
      | file => exact meets_throw (.inl ⟨⟨_, rfl⟩, rfl⟩)
      | link =>
        have hpruned := h.pruned_remove hplace hitem nofun
        exact meets_change (.inr ⟨rfl, hpruned, keeps_remove hplace⟩)
  | false =>
    refine .ask_bind (fun found hfound => ?_) fun e _ => .inl ⟨⟨e, rfl⟩, rfl⟩
    obtain ⟨q, found⟩ := found
    cases found with
    | none => exact meets_throw (.inl ⟨⟨_, rfl⟩, rfl⟩)
    | some item =>
      obtain ⟨rfl, hitem⟩ := hpath q item hfound
      cases item with
      | dir => exact meets_throw (.inl ⟨⟨_, rfl⟩, rfl⟩)
      | _ =>
        have hpruned := h.pruned_remove hplace hitem nofun
        exact meets_change (.inr ⟨rfl, hpruned, keeps_remove hplace⟩)

/-- It is removed if the path leads there and it is known for a directory or for none. A link may
pass for either. -/
theorem meets_strike_ok {path : OsPath} {item : Item} (hplace : place ≠ [])
    (hpath : d.resolve false path = .ok ⟨place, some item⟩) {isDir : Bool}
    (hdir : item = .dir → isDir = true)
    (hfile : ∀ serial content, item = .file serial content → isDir = false) :
    (if isDir = true then removeTree path else removeFile path).Meets d fun result _ =>
      result = .ok () := by
  cases isDir with
  | true =>
    refine .ask_bind (fun found hfound => ?_) fun e he => by cases hpath.symm.trans he
    cases hpath.symm.trans hfound
    cases item with
    | dir => exact (meets_removeAt hplace).mono fun _ _ hd => hd.1
    | file serial content => exact nomatch hfile serial content rfl
    | link => exact meets_change rfl
  | false =>
    refine .ask_bind (fun found hfound => ?_) fun e he => by cases hpath.symm.trans he
    cases hpath.symm.trans hfound
    cases item with
    | dir => exact nomatch hdir rfl
    | _ => exact meets_change rfl

theorem isDir_name (h : d.dirAt root = .ok dir) (hlimits : WithinLimits root [name]) :
    (d.at? (dir ++ [name]) = some .dir → d.isDir (OsPath.below root [name]) = true) ∧
      ∀ serial content, d.at? (dir ++ [name]) = some (.file serial content) →
        d.isDir (OsPath.below root [name]) = false := by
  have hresolve (hlink : ∀ target, d.at? (dir ++ [name]) ≠ some (.link target)) :
      d.isDir (OsPath.below root [name]) = (d.at? (dir ++ [name]) == some .dir) := by
    unfold isDir item?
    rw [Leads.resolve_name (.inl h) hlimits fun target _ => hlink target]
    rfl
  refine ⟨fun hdir => ?_, fun serial content hfile => ?_⟩
  · rw [hresolve (by rw [hdir]; nofun), hdir]
    rfl
  · rw [hresolve (by rw [hfile]; nofun), hfile]
    rfl

end Disk

/-! ## Clearing -/

namespace DiskCache
open CacheLock

variable {d d' : Disk} {c : DiskCache} {dir : Place} {rest : List Bytes} {name : Bytes}

/-- A directory of which all is gone but what is left to be removed, and the lock file. -/
structure Swept (dir : Place) (d : Disk) (rest : List Bytes) (d' : Disk) : Prop where
  proper : d'.Proper
  keeps : Disk.Keeps d d'
  outside : d.AgreesOff dir d'
  kept : ∀ name, name = fileName ∨ name ∈ rest → Disk.Same (dir ++ [name]) d d'
  gone : ∀ name, name ≠ fileName → name ∉ rest → Disk.Gone (dir ++ [name]) d'

/-- The directory can be cleared through its path: the path does not need what lies in it, and the
operating system takes the paths of all that does. -/
structure Clearable (root : OsPath) (dir : Place) (d : Disk) : Prop where
  anchored : d.Anchored root dir
  fits : ∀ name, name ≠ fileName → d.at? (dir ++ [name]) ≠ none →
    (OsPath.below root [name]).length < Disk.pathLimit

namespace Swept

theorem start (h : d.Proper) : Swept dir d ((d.children dir).map Prod.fst) d := by
  refine ⟨h, .refl, .refl, fun _ _ => .refl, fun name _ hname => ?_⟩
  have hnone : d.at? ([] ++ (dir ++ [name])) = none := by
    cases hitem : d.at? (dir ++ [name]) with
    | none => exact hitem
    | some item => exact absurd (List.mem_map.2 ⟨_, Disk.mem_children.2 hitem, rfl⟩) hname
  have hgone : Disk.Gone ([] ++ (dir ++ [name])) d := h.tree.gone hnone
  exact hgone

theorem at?_eq (h : Swept dir d rest d') {q : Place} {item : Item} (hitem : d'.at? q = some item) :
    d.at? q = some item := by
  by_cases hq : dir.Inside q
  · obtain ⟨name, more, rfl⟩ := hq
    rw [List.append_cons] at hitem ⊢
    by_cases hname : name = fileName ∨ name ∈ rest
    · rwa [h.kept name hname more] at hitem
    · have hgone := h.gone name (fun e => hname (.inl e)) (fun e => hname (.inr e)) more
      cases hgone.symm.trans hitem
  · rwa [h.outside q hq] at hitem

theorem skip (h : Swept dir d (fileName :: rest) d') : Swept dir d rest d' := by
  refine ⟨h.proper, h.keeps, h.outside, fun name hname => h.kept name ?_,
    fun name hother hname => h.gone name hother fun hmem => ?_⟩
  · exact hname.imp_right (List.mem_cons_of_mem _)
  · exact (List.mem_cons.1 hmem).elim hother hname

theorem strike {d'' : Disk} (h : Swept dir d (name :: rest) d') (hother : name ≠ fileName)
    (hrest : name ∉ rest) (hpruned : Disk.Pruned (dir ++ [name]) d' d'')
    (hkeeps : Disk.Keeps d' d'') : Swept dir d rest d'' := by
  refine ⟨h.proper.pruned hpruned hkeeps, h.keeps.trans hkeeps,
    h.outside.trans (hpruned.agreesOff (List.cons_ne_nil _ _)), fun other hkept => ?_,
    fun other hlock hgone => ?_⟩
  · have hne : other ≠ name := by
      rintro rfl
      exact hkept.elim hother hrest
    exact (h.kept other (hkept.imp_right (List.mem_cons_of_mem _))).trans (hpruned.same hne)
  · by_cases hne : other = name
    · exact hne ▸ hpruned.gone
    · intro more
      rw [hpruned.same hne more]
      exact h.gone other hlock (fun hmem => (List.mem_cons.1 hmem).elim hne hgone) more

end Swept

/-- One round: an entry is removed, or all is as it was. -/
theorem Swept.meets_strike (h : Swept dir d (name :: rest) d') (hdir : d.dirAt c.root = .ok dir)
    (hproper : d.Proper) (hsome : d.at? (dir ++ [name]) ≠ none) (hother : name ≠ fileName)
    (hrest : name ∉ rest) :
    (if d'.isDir (c.root.push name) = true then Disk.removeTree (c.root.push name)
      else Disk.removeFile (c.root.push name)).Meets d' fun result d'' =>
      (((∃ e, result = .error e) ∧ d'' = d') ∨ (result = .ok () ∧ Swept dir d rest d'')) ∧
        (Clearable c.root dir d → result = .ok ()) := by
  have hname : Disk.Accepted name := hproper.named dir name hsome
  have hplace := Disk.named_ne_nil dir name
  have hsame : d'.at? (dir ++ [name]) = d.at? (dir ++ [name]) := by
    have hkept := h.kept name (.inr List.mem_cons_self) []
    rwa [List.append_nil] at hkept
  obtain ⟨item, hitem⟩ := Option.ne_none_iff_exists'.1 hsome
  rw [OsPath.push_eq]
  refine .and ?_ ?_
  · refine (Disk.meets_strike h.proper hplace (fun q found hfound => ?_) _).mono
      fun _ _ hd => hd.imp_right fun ⟨hok, hpruned, hkeeps⟩ =>
        ⟨hok, h.strike hother hrest hpruned hkeeps⟩
    -- what the path leads to now, it led to before
    have hbefore := Disk.resolve_mono hfound (Option.some_ne_none _) fun _ _ => h.at?_eq
    obtain ⟨-, heq⟩ := (Disk.resolve_name_iff hdir hname.toIsName).1 hbefore
    obtain ⟨hq, hthere⟩ := Found.mk.inj heq
    exact ⟨hq, hsame.trans hthere.symm⟩
  · by_cases hclear : Clearable c.root dir d
    · have hdir' : d'.dirAt c.root = .ok dir := hclear.anchored d' h.outside
      have hlimits : Disk.WithinLimits c.root [name] :=
        ⟨List.forall_mem_singleton.2 hname, hclear.fits name hother hsome⟩
      have hpath := (Disk.resolve_name_iff hdir' hname.toIsName).2 ⟨hlimits, rfl⟩
      obtain ⟨hisDir, hisFile⟩ := Disk.isDir_name hdir' hlimits
      rw [hsame, hitem] at hpath hisDir hisFile
      refine (Disk.meets_strike_ok hplace hpath (fun e => hisDir (by rw [e])) ?_).mono
        fun _ _ hok _ => hok
      exact fun serial content e => hisFile serial content (by rw [e])
    · exact fun _ hclear' => absurd hclear' hclear

/-- The entries of a directory that are left to be looked at, and what has come of the others. -/
structure Sweeping (dir : Place) (d : Disk) (rest : List (Bytes × Item)) (d' : Disk) : Prop where
  there : ∀ e ∈ rest, d.at? (dir ++ [e.1]) ≠ none
  once : (rest.map Prod.fst).Nodup
  swept : Swept dir d (rest.map Prod.fst) d'

theorem Sweeping.start (h : d.Proper) : Sweeping dir d (d.children dir) d := by
  refine ⟨fun e he => ?_, d.nodup_children dir, .start h⟩
  rw [Disk.mem_children.1 he]
  exact Option.some_ne_none _

theorem components_push_eq_iff (hlock : c.lock.path = pathIn c.root) (hname : OsPath.IsName name) :
    (c.root.push name).components = c.lock.path.components ↔ name = fileName := by
  rw [hlock, pathIn_eq, ← OsPath.push_eq, OsPath.components_push hname,
    OsPath.components_push isName_fileName]
  simp

theorem meets_clear_swept (h : d.Proper) (hlock : c.lock.path = pathIn c.root)
    (hdir : d.dirAt c.root = .ok dir) :
    c.clear.Meets d fun result d' => (∃ rest, Swept dir d rest d' ∧ (result = .ok () → rest = [])) ∧
      (Clearable c.root dir d → result = .ok ()) := by
  refine .ask_bind (fun place hplace => ?_) fun e he => ?_
  · cases hdir.symm.trans (ok_of_mapError hplace)
    refine .disk_bind (.bind (p := fun result d' =>
      (∃ rest, Swept dir d rest d' ∧ (result = .ok ⟨⟩ → rest = [])) ∧
        (Clearable c.root dir d → result = .ok ⟨⟩))
      (meets_forIn (Sweeping dir d) ?_ ?_ _ _ (.start h)) ?_ ?_)
    · rintro ⟨name, item⟩ rest d₁ ⟨hsome, hnodup, hswept⟩
      obtain ⟨hname, hsome⟩ := List.forall_mem_cons.1 hsome
      obtain ⟨hrest, hnodup⟩ := List.nodup_cons.1 hnodup
      have hself := components_push_eq_iff hlock (h.named dir name hname).toIsName
      dsimp only
      by_cases hother : name = fileName
      · rw [if_pos (hself.2 hother)]
        exact meets_pure (.inl ⟨rfl, hsome, hnodup, (hother ▸ hswept).skip⟩)
      · rw [if_neg fun e => hother (hself.1 e)]
        refine .disk_bind (.bind (hswept.meets_strike hdir h hname hother hrest).mapError ?_ ?_)
        · rintro _ d₂ ⟨ended, heq, hended, -⟩
          rcases hended with ⟨⟨e, rfl⟩, -⟩ | ⟨-, hswept⟩
          · cases heq
          · exact meets_pure (.inl ⟨rfl, hsome, hnodup, hswept⟩)
        · rintro e d₂ ⟨ended, heq, hended, hok⟩
          rcases hended with ⟨⟨e', rfl⟩, rfl⟩ | ⟨rfl, -⟩
          · exact .inr ⟨e, rfl, ⟨_, hswept, nofun⟩, fun hclear => nomatch hok hclear⟩
          · cases heq
    · exact fun d' hsweeping => ⟨⟨[], hsweeping.swept, fun _ => rfl⟩, fun _ => rfl⟩
    · rintro _ d₁ ⟨⟨rest, hswept, hrest⟩, -⟩
      exact meets_pure ⟨⟨rest, hswept, fun _ => hrest rfl⟩, fun _ => rfl⟩
    · rintro e d₁ ⟨⟨rest, hswept, -⟩, hclear⟩
      exact ⟨⟨rest, hswept, nofun⟩, fun h => nomatch hclear h⟩
  · rw [hdir] at he
    cases he

/-- A cache whose root has gone astray is not cleared. -/
theorem meets_clear_astray (h : ∀ dir, d.dirAt c.root ≠ .ok dir) :
    c.clear.Meets d fun result d' => (∃ e, result = .error e) ∧ d' = d := by
  refine .ask_bind (fun place hplace => ?_) fun e _ => ⟨⟨e, rfl⟩, rfl⟩
  exact absurd (ok_of_mapError hplace) (h place)

/-- A lock file stays, unless its directory lies inside the one that is cleared. -/
theorem Swept.at?_lock (h : Swept dir d rest d') {place : Place} (hplace : ¬dir.Inside place) :
    d'.at? (place ++ [fileName]) = d.at? (place ++ [fileName]) := by
  by_cases hself : place = dir
  · have hkept := h.kept fileName (.inl rfl) []
    rwa [List.append_nil, ← hself] at hkept
  · refine h.outside _ fun ⟨name, names, heq⟩ => ?_
    rcases List.eq_nil_or_concat names with rfl | ⟨front, last, rfl⟩
    · exact hself (List.append_inj' heq rfl).1
    · rw [List.concat_eq_append, ← List.cons_append, ← List.append_assoc] at heq
      exact hplace ⟨name, front, (List.append_inj' heq rfl).1⟩

end DiskCache

end Rebuild
