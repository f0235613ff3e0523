import Rebuild.Proofs.Cache.Answers
import Rebuild.Proofs.Cache.Interrupted
import Rebuild.Proofs.Incremental.History

/-!
# States of a cache on the disk

What an open cache may find on the disk if nobody else touches its root: whatever has
been stored and removed, whether calls succeeded, failed or were cut short, and
however often the cache was closed and opened again. Its root keeps its footing, and
all entries are of builders of which something was stored.

* `DiskCache.Interrupted`: changes after which a program may stop.
* `DiskCache.Reached`: states of an open cache.
* `Reached.kept`: what holds of all of them.
-/
namespace Rebuild
open DiskM DiskOp

namespace DiskCache

variable {ρ : Type}

/-- Takes away something in a directory below which nothing lies. -/
def Clearing (dir : Place) (d : Disk) (op : DiskOp) : Prop :=
  ∃ p, op = .remove p ∧ dir.Inside p ∧ ∀ q, Place.Inside p q → d.at? q = none

/-- Changes after which a program that has a cache open may stop: none, some of those of a store, or
some of those by which entries are removed, in any order that empties directories. -/
inductive Interrupted (c : DiskCache) (dir : Place) (d : Disk) : List DiskOp → Prop where
  | closed : Interrupted c dir d []
  | store {id fp outputs read ops ops'}
      (sequence : Resequenced (dir ++ [entryName id]) ((c.store id fp outputs read).changes d) ops')
      (cut : ops <+: ops') (unfinished : ops ≠ ops') : Interrupted c dir d ops
  | removal {ops} (removals : Along (Clearing dir) d ops) : Interrupted c dir d ops

/-- States of a cache that is open, with the builders of which something was stored. -/
inductive Reached (root : OsPath) (dir : Place) : DiskCache → Site ρ → List BuilderId → Prop where
  /-- At first there is nothing in the root but the lock file. -/
  | opened {c process started t t'}
      (opened : openIn Site.diskPart root .standard process started t = (.ok c, t'))
      (found : t'.world.disk.dirAt root = .ok dir)
      (empty : ∀ place, dir.Inside place → t'.world.disk.at? place = none ∨
        place = dir ++ [CacheLock.fileName] ∧ ∃ serial content,
          t'.world.disk.at? place = some (.file serial content)) : Reached root dir c t'.world []
  | stored {c t ids id fp outputs source} (reached : Reached root dir c t.world ids)
      (ok : ((cache Site.diskPart c).store id fp outputs source t).1 = .ok ()) :
      Reached root dir c ((cache Site.diskPart c).store id fp outputs source t).2.world (id :: ids)
  | failed {c t ids id fp outputs source e} (reached : Reached root dir c t.world ids)
      (error : ((cache Site.diskPart c).store id fp outputs source t).1 = .error e) :
      Reached root dir c ((cache Site.diskPart c).store id fp outputs source t).2.world ids
  | removed {c s ids} (reached : Reached root dir c s ids) (id : BuilderId) :
      Reached root dir c (Site.diskPart.change (c.remove id).run s).2 ids
  | cleared {c ids} {t : Traced (Site ρ)} (reached : Reached root dir c t.world ids) :
      Reached root dir c (c.clearIn Site.diskPart t).2.world ids
  /-- Something else changes, but not the root and the way to it. -/
  | elsewhere {c s s' ids} (reached : Reached root dir c s ids)
      (anchored : s'.disk.Anchored root dir) (same : Disk.Same dir s.disk s'.disk) :
      Reached root dir c s' ids
  /-- Somebody tries to open the cache too. -/
  | refused {c process started e t t' ids} (reached : Reached root dir c t.world ids)
      (opened : openIn Site.diskPart root .standard process started t = (.error e, t')) :
      Reached root dir c t'.world ids
  /-- The cache is closed or the program stops, and the cache is opened again. -/
  | reopened {c c' process started ops s t t' ids} (reached : Reached root dir c s ids)
      (interrupted : c.Interrupted dir s.disk ops)
      (released : t.world = { s with disk := c.lock.release (applyAll ops s.disk) })
      (opened : openIn Site.diskPart root .standard process started t = (.ok c', t')) :
      Reached root dir c' t'.world ids

/-! ## What the steps come to -/

variable {root : OsPath} {dir : Place} {c c' : DiskCache} {s s' : Site ρ}
  {t t' : Traced (Site ρ)} {d d' : Disk} {ids : List BuilderId} {ops : List DiskOp}

/-- A store leaves the entries of others alone, and its own loses pieces or is the new one. -/
theorem cut_of_run (h : d.Footing c.root dir) (id : BuilderId) (fp : Fingerprint)
    (outputs : Outputs) (read : RelativePath → Except FsError Bytes) :
    ∃ name, (∃ n : Nat, name = Disk.numbered ".staging-" n) ∧
      Cut c dir name id fp outputs read d ((c.store id fp outputs read).run d).2
        (((c.store id fp outputs read).run d).1 = .ok ()) := by
  obtain ⟨⟨name, first, places, last, heq, hcourse⟩, hrun⟩ :=
    (traces_store h id fp outputs read).run
  rw [hrun, heq]
  obtain ⟨hfooting, hothers, hentry⟩ := hcourse.cut h List.prefix_rfl
  simp only [true_and] at hentry
  exact ⟨name, hcourse.numbered, hfooting, hothers, hentry⟩

theorem Cut.same {name : Bytes} {id : BuilderId} {fp : Fingerprint} {outputs : Outputs}
    {read : RelativePath → Except FsError Bytes} {done : Prop}
    (h : Cut c dir name id fp outputs read d d' done) {other : Bytes} (hname : other ≠ name)
    (hentry : other ≠ entryName id) : Disk.Same (dir ++ [other]) d d' := fun rest =>
  h.others _ (Disk.not_below_other hname rest) (Disk.not_below_other hentry rest)

theorem of_clearing (hops : Along (Clearing dir) d ops) (h : d.Footing root dir) :
    (applyAll ops d).Footing root dir ∧ Disk.Shrunk dir d (applyAll ops d) := by
  refine hops.invariant (P := fun d' => d'.Footing root dir ∧ Disk.Shrunk dir d d') ?_
    ⟨h, Disk.Same.refl.shrunk⟩
  intro d₁ op ⟨h₁, hshrunk⟩ ⟨p, hop, hin, hnone⟩
  subst hop
  obtain ⟨first, rest, rfl⟩ := hin
  refine ⟨h₁.removed (List.cons_ne_nil _ _) hnone, hshrunk.trans fun q => ?_⟩
  rw [at?_apply_remove d₁ (List.append_ne_nil_of_right_ne_nil dir (List.cons_ne_nil _ _))]
  split
  · exact .inr rfl
  · exact .inl rfl

/-- Opening a cache changes nothing in its root but the lock file. -/
theorem taken_of_openIn {process started : Nat} {opened : Except CacheError DiskCache}
    (h : t.world.disk.Footing root dir)
    (hopened : openIn Site.diskPart root .standard process started t = (opened, t')) :
    CacheLock.Taken root dir t.world.disk t'.world.disk := by
  rw [(of_openIn hopened).1]
  exact (CacheLock.meets_acquire h ⟨holderName, process, started⟩).run

/-- A cache that is opened after another one was released finds everything but the lock file as it
was. -/
theorem of_reopened {lock : CacheLock} {process started : Nat} (h : d.Footing root dir)
    (hreleased : t.world.disk = lock.release d)
    (hopened : openIn Site.diskPart root .standard process started t = (.ok c', t')) :
    c'.root = root ∧ c'.registry = .standard ∧ t'.world.disk.Footing root dir ∧
      t'.world.rest = t.world.rest ∧
      ∀ name, name ≠ CacheLock.fileName → Disk.Same (dir ++ [name]) d t'.world.disk := by
  have hat (q : Place) : (lock.release d).at? q = d.at? q := rfl
  have htaken := taken_of_openIn (hreleased ▸ h.congr hat) hopened
  obtain ⟨hworld, hof⟩ := of_openIn hopened
  obtain ⟨hroot, hregistry, -⟩ := hof c' rfl
  refine ⟨hroot, hregistry, htaken.footing, by rw [hworld], fun name hname rest => ?_⟩
  rw [htaken.entries name hname, hreleased, hat]

/-! ## What holds of all states -/

/-- The root has its footing, and entries are of builders of which something was stored. -/
structure Kept (root : OsPath) (dir : Place) (c : DiskCache) (d : Disk) (ids : List BuilderId) :
    Prop where
  root_eq : c.root = root
  registry : c.registry = .standard
  footing : d.Footing root dir
  /-- Names of entries have no dots. -/
  entries : ∀ name, 0x2E ∉ name → d.at? (dir ++ [name]) ≠ none → ∃ id ∈ ids, name = entryName id

theorem Kept.footing_root (h : Kept root dir c d ids) : d.Footing c.root dir :=
  h.root_eq.symm ▸ h.footing

theorem Kept.of_at? (h : Kept root dir c d ids) (hroot : c'.root = root)
    (hregistry : c'.registry = .standard) (hfooting : d'.Footing root dir)
    (hat : ∀ name, 0x2E ∉ name → d'.at? (dir ++ [name]) = d.at? (dir ++ [name]) ∨
      d'.at? (dir ++ [name]) = none) : Kept root dir c' d' ids := by
  refine ⟨hroot, hregistry, hfooting, fun name hname hsome => h.entries name hname ?_⟩
  rcases hat name hname with hsame | hnone
  · rwa [hsame] at hsome
  · exact absurd hnone hsome

theorem at?_of_same {name : Bytes} (h : Disk.Same (dir ++ [name]) d d') :
    d'.at? (dir ++ [name]) = d.at? (dir ++ [name]) := by
  have := h []
  rwa [List.append_nil] at this

theorem at?_of_shrunk {name : Bytes} (h : Disk.Shrunk (dir ++ [name]) d d') :
    d'.at? (dir ++ [name]) = d.at? (dir ++ [name]) ∨ d'.at? (dir ++ [name]) = none := by
  have := h []
  rwa [List.append_nil] at this

theorem Kept.thinned (h : Kept root dir c d ids) (hthinned : Thinned c dir d d') :
    Kept root dir c d' ids := by
  refine h.of_at? h.root_eq h.registry (h.root_eq ▸ hthinned.footing) fun name _ => ?_
  rcases hthinned.entries name with hsame | hgone
  · exact .inl (at?_of_same hsame)
  · have := hgone []
    rw [List.append_nil] at this
    exact .inr this

theorem Kept.taken (h : Kept root dir c d ids) (hroot : c'.root = root)
    (hregistry : c'.registry = .standard) (htaken : CacheLock.Taken root dir d d') :
    Kept root dir c' d' ids := by
  refine h.of_at? hroot hregistry htaken.footing fun name hname => .inl ?_
  have hdot : 0x2E ∈ CacheLock.fileName := by decide
  exact at?_of_same (htaken.entries name fun e => hname (e ▸ hdot))

theorem Kept.cut {name : Bytes} {id : BuilderId} {fp : Fingerprint} {outputs : Outputs}
    {read : RelativePath → Except FsError Bytes} {done : Prop} (h : Kept root dir c d ids)
    (hnumbered : ∃ n : Nat, name = Disk.numbered ".staging-" n)
    (hcut : Cut c dir name id fp outputs read d d' done) {ids' : List BuilderId}
    (hids : ∀ a ∈ ids, a ∈ ids') (hdone : done → id ∈ ids') : Kept root dir c d' ids' := by
  refine ⟨h.root_eq, h.registry, h.root_eq ▸ hcut.footing, fun other hother hsome => ?_⟩
  have hold (hsome : d.at? (dir ++ [other]) ≠ none) : ∃ a ∈ ids', other = entryName a := by
    obtain ⟨a, ha, heq⟩ := h.entries other hother hsome
    exact ⟨a, hids a ha, heq⟩
  by_cases hentry : other = entryName id
  · rcases hcut.entry with ⟨-, hshrunk⟩ | ⟨hd, -⟩
    · rcases at?_of_shrunk hshrunk with hsame | hnone
      · exact hold (by rwa [hentry, ← hsame, ← hentry])
      · exact absurd (hentry ▸ hnone) hsome
    · exact ⟨id, hdone hd, hentry⟩
  · have hname : other ≠ name := by
      rintro rfl
      exact hother (dot_mem_of_numbered hnumbered)
    exact hold (by rwa [← at?_of_same (hcut.same hname hentry)])

theorem Kept.interrupted (h : Kept root dir c d ids) (hops : c.Interrupted dir d ops) :
    Kept root dir c (applyAll ops d) ids := by
  cases hops with
  | closed => exact h
  | store sequence cut unfinished =>
    obtain ⟨name, hnumbered, hcut⟩ := cut_store h.footing_root sequence cut
    exact h.cut hnumbered hcut (fun _ ha => ha) fun hdone => absurd hdone.1 unfinished
  | removal removals =>
    obtain ⟨hfooting, hshrunk⟩ := of_clearing removals h.footing
    exact h.of_at? h.root_eq h.registry hfooting fun name _ => hshrunk [name]

theorem Reached.kept (h : Reached root dir c s ids) : Kept root dir c s.disk ids := by
  induction h with
  | @opened c process started t t' opened found empty =>
    obtain ⟨-, hopened⟩ := of_openIn opened
    obtain ⟨hroot, hregistry, -⟩ := hopened c rfl
    refine ⟨hroot, hregistry, CacheLock.footing_of_flat found empty, fun name hname hsome => ?_⟩
    rcases empty _ (Disk.inside_append dir (List.cons_ne_nil name [])) with hnone | ⟨heq, -⟩
    · exact absurd hnone hsome
    · have hlock : name = CacheLock.fileName := (List.cons.inj (List.append_cancel_left heq)).1
      exact absurd (hlock ▸ by decide) hname
  | @stored c t ids id fp outputs source reached ok ih =>
    obtain ⟨hresult, hworld⟩ := store_eq c id fp outputs source t
    obtain ⟨name, hnumbered, hcut⟩ :=
      cut_of_run ih.footing_root id fp outputs (source.read · t.world)
    rw [hworld]
    exact ih.cut hnumbered hcut (fun _ ha => List.mem_cons_of_mem _ ha)
      fun _ => List.mem_cons_self
  | @failed c t ids id fp outputs source e reached error ih =>
    obtain ⟨hresult, hworld⟩ := store_eq c id fp outputs source t
    obtain ⟨name, hnumbered, hcut⟩ :=
      cut_of_run ih.footing_root id fp outputs (source.read · t.world)
    rw [hworld]
    refine ih.cut hnumbered hcut (fun _ ha => ha) fun hdone => ?_
    cases error.symm.trans (hresult.trans hdone)
  | @removed c s ids reached id ih =>
    rw [Workshop.change_diskPart]
    dsimp only
    exact ih.thinned (meets_remove ih.footing_root id).run
  | @cleared c ids t reached ih =>
    rw [Workshop.clearIn_world]
    dsimp only
    exact ih.thinned (meets_clear ih.footing_root).run
  | elsewhere reached anchored same ih =>
    exact ih.of_at? ih.root_eq ih.registry (ih.footing.of_same anchored same)
      fun name _ => .inl (same [name])
  | refused reached opened ih =>
    exact ih.taken ih.root_eq ih.registry (taken_of_openIn ih.footing opened)
  | @reopened c c' process started ops s t t' ids reached interrupted released opened ih =>
    have hkept : Kept root dir c t.world.disk ids := by
      rw [released]
      exact (ih.interrupted interrupted).of_at? ih.root_eq ih.registry
        ((ih.interrupted interrupted).footing.congr fun _ => rfl) fun _ _ => .inl rfl
    obtain ⟨-, hopened⟩ := of_openIn opened
    obtain ⟨hroot, hregistry, -⟩ := hopened c' rfl
    exact hkept.taken hroot hregistry (taken_of_openIn hkept.footing opened)

end DiskCache

end Rebuild
