import Rebuild.Proofs.Cache.OnDisk
import Rebuild.Proofs.Disk.Confined
import Rebuild.Proofs.Disk.Emptying

/-!
# Stores that are cut short

A store is a sequence of single changes: what comes first stays in the staging
directory, then the old entry is removed piece by piece, and then the staging
directory is moved to its place, or it is removed if something has failed. Wherever
the sequence is cut, the entry has lost some pieces or is the new one as a whole, and
other entries are as they were. The order of the removals does not matter as long as
directories are emptied first.

* `DiskCache.Course`: the changes of a store.
* `traces_store`: a store makes such changes.
* `DiskCache.Resequenced`: the same changes, with the removals in another order.
* `Course.cut`: what the disk holds after some of the changes.
-/
namespace Rebuild
open DiskM DiskOp

namespace DiskCache

variable {d d' : Disk} {root : OsPath} {dir : Place} {name entry : Bytes} {id : BuilderId}
  {encoded : Bytes} {outputs : Outputs} {read : RelativePath → Except FsError Bytes}

/-! ## Staging -/

theorem Within.makes_write (h : Within root dir name d d') (hname : OsPath.IsName name)
    (hdir : d.at? (dir ++ [name]) = some .dir) (p : RelativePath) (content : Bytes) :
    ((filesIn (OsPath.below root [name])).write p content).Makes d'
        (Disk.Confined root dir name) ∧
      ((filesIn (OsPath.below root [name])).write p content).Meets d' fun _ d'' =>
        Within root dir name d d'' := by
  have hparent : (filesIn (OsPath.below root [name])).parentOf p =
      OsPath.below root (name :: filesName :: (p.segments.map Bytes.ofText).dropLast) :=
    parentOf_eq (trimStays_filesIn _) p
  have hfile : p.under (filesIn (OsPath.below root [name])).root =
      OsPath.below root (name :: filePlace p) := RelativePath.under_eq p _
  have hdirs : ∀ n ∈ name :: filesName :: (p.segments.map Bytes.ofText).dropLast,
      OsPath.IsName n :=
    List.forall_mem_cons.2 ⟨hname, List.forall_mem_cons.2 ⟨isName_filesName,
      fun n hn => p.isName_segments n (List.dropLast_subset _ hn)⟩⟩
  have hstaging : Staging root dir name ∅ (fun _ => .ok content) d [p] d' :=
    ⟨h, fun q hq => absurd hq (SortedSet.not_mem_empty q)⟩
  refine ⟨?_, (hstaging.meets_write hname hdir rfl).mono fun _ _ hd => hd.1⟩
  unfold LocalDirectory.write
  rw [hparent, hfile]
  exact (Disk.makes_replaceFile h.footing (h.at?_dir hdir) hdirs
    (List.forall_mem_cons.2 ⟨hname, isName_filePlace p⟩) content).mapError

theorem Within.makes_put (h : Within root dir name d d') (hname : OsPath.IsName name)
    {file : String} (hfile : OsPath.IsName (Bytes.ofText file)) (content : Bytes) :
    (Disk.writeFile ((OsPath.below root [name]).child file) content).Makes d'
      (Disk.Confined root dir name) := by
  rw [OsPath.child_eq, OsPath.below_below]
  exact Disk.makes_writeFile h.footing
    (List.forall_mem_cons.2 ⟨hname, List.forall_mem_singleton.2 hfile⟩) content

theorem makes_stage (h : d.Footing root dir) (hname : OsPath.IsName name)
    (hdir : d.at? (dir ++ [name]) = some .dir) :
    (stage (OsPath.below root [name]) id encoded outputs read).Makes d
      (Disk.Confined root dir name) := by
  have hnames : ∀ n ∈ [name, filesName], OsPath.IsName n :=
    List.forall_mem_cons.2 ⟨hname, List.forall_mem_singleton.2 isName_filesName⟩
  have hmade : (Disk.makeDirs (filesIn (OsPath.below root [name])).root).Meets d fun _ d₁ =>
      Within root dir name d d₁ :=
    (Disk.meets_makeDirs h hdir hnames).mono fun _ d₁ ⟨h₁, hgrew⟩ =>
      ⟨h₁, fun q hq => (hgrew q).resolve_right fun hg => hq hg.1⟩
  refine .bind (Disk.makes_makeDirs h hdir hnames).mapError hmade.mapError ?_
  intro _ d₁ ⟨_, _, h₁⟩
  refine .bind (makes_forIn (fun _ d' => Within root dir name d d') ?_ _ _ h₁)
    (h₁.meets_outputs hname hdir) ?_
  · intro p rest d₂ h₂
    refine ⟨.ask_bind fun content _ => ?_, .ask_bind (fun content _ => ?_) fun _ _ => nofun⟩
    · obtain ⟨hmakes, hmeets⟩ := h₂.makes_write hname hdir p content
      exact .bind hmakes.mapError hmeets.mapError fun _ _ _ => makes_pure
    · refine .bind (h₂.makes_write hname hdir p content).2.mapError ?_ fun _ _ _ => nofun
      intro _ d₃ ⟨_, _, h₃⟩
      refine meets_pure fun step heq => ?_
      cases heq
      exact ⟨rfl, h₃⟩
  · intro _ d₂ ⟨h₂, _⟩
    refine .bind (h₂.makes_put hname isName_indexName _).mapError
      (h₂.meets_put hname isName_indexName _).mapError ?_
    intro _ d₃ ⟨_, _, h₃, _, _⟩
    exact (h₃.makes_put hname isName_fingerprintName encoded).mapError

/-! ## Installing -/

/-- The changes of an installation: the old entry is removed, if there is one, and then what was
staged is moved to its place, if nothing fails. -/
structure Installing (dir : Place) (name entry : Bytes) (d : Disk) (result : Except CacheError Unit)
    (places : List Place) (last : List DiskOp) : Prop where
  removed : places = [] ∨ Disk.Emptying (dir ++ [entry]) d places
  moved : ((∃ e, result = .error e) ∧ last = []) ∨
    (result = .ok () ∧ last = [.move (dir ++ [name]) (dir ++ [entry])] ∧
      ∀ place, Place.Inside (dir ++ [entry]) place →
        (applyAll (places.map .remove) d).at? place = none)

theorem traces_install (h : d.Footing root dir) (hdir : d.at? (dir ++ [name]) = some .dir)
    (hentry : OsPath.IsName entry) (hne : name ≠ entry) :
    (install (dir ++ [name]) (OsPath.below root [entry])).Traces d fun result ops =>
      ∃ places last, ops = places.map .remove ++ last ∧
        Installing dir name entry d result places last := by
  have hnames : ∀ n ∈ [entry], OsPath.IsName n := List.forall_mem_singleton.2 hentry
  have hsingle : [entry] ≠ [] := List.cons_ne_nil _ _
  have hplace : dir ++ [entry] ≠ [] := List.append_ne_nil_of_right_ne_nil _ hsingle
  -- the move, once the old entry is gone or if there is none
  have hmove {places : List Place} (hplaces : places = [] ∨
      Disk.Emptying (dir ++ [entry]) d places) {d₁ : Disk}
      (hd₁ : d₁ = applyAll (places.map .remove) d) (h₁ : d₁.Footing root dir)
      (hdir₁ : d₁.at? (dir ++ [name]) = some .dir) :
      ((Disk.rename (dir ++ [name]) (OsPath.below root [entry])).mapError
        (.io (OsPath.below root [entry]))).Traces d₁ fun result last =>
          Installing dir name entry d result places last := by
    refine ((Disk.traces_rename h₁ hnames hsingle _).and_meets
      (Disk.meets_rename h₁ hnames hsingle hdir₁)).mapError.mono ?_
    intro _ ops ⟨_, heq, htrace, hended⟩
    subst heq
    rcases htrace with ⟨⟨e, rfl⟩, rfl⟩ | ⟨rfl, rfl⟩
    · exact ⟨hplaces, .inl ⟨⟨_, rfl⟩, rfl⟩⟩
    · rcases hended with ⟨⟨e, heq⟩, -⟩ | ⟨-, hvacant, -⟩
      · cases heq
      · exact ⟨hplaces, .inr ⟨rfl, rfl, hd₁ ▸ hvacant.clear⟩⟩
  refine .disk_bind ?_
  dsimp only
  split
  · refine .bind ((Disk.traces_removeTree h hnames hsingle)).mapError ?_ ?_
    · intro _ ops ⟨ended, heq, hremoved⟩
      rcases hremoved with ⟨⟨e, rfl⟩, -⟩ | ⟨-, rfl⟩
      · cases heq
      · have hemptying := Disk.emptying_removalOrder d (dir ++ [entry])
        have hpruned := hemptying.pruned hplace
        have hstaged := hpruned.same hne []
        rw [List.append_nil] at hstaged
        exact (hmove (.inr hemptying) rfl (h.pruned hsingle hpruned)
          (hstaged.trans hdir)).mono fun result last hd => ⟨_, last, rfl, hd⟩
    · intro e ops ⟨ended, heq, hremoved⟩
      rcases hremoved with ⟨-, rfl⟩ | ⟨rfl, -⟩
      · exact ⟨[], [], rfl, .inl rfl, .inl ⟨⟨e, rfl⟩, rfl⟩⟩
      · cases heq
  · exact (hmove (.inl rfl) rfl h hdir).mono fun result last hd => ⟨[], last, rfl, hd⟩

/-! ## Storing -/

theorem dot_mem_of_numbered (h : ∃ n : Nat, name = Disk.numbered ".staging-" n) :
    0x2E ∈ name := by
  obtain ⟨n, rfl⟩ := h
  unfold Disk.numbered
  rw [Bytes.ofText_append]
  exact List.mem_append_left _ (by decide)

theorem ne_entryName_of_numbered (h : ∃ n : Nat, name = Disk.numbered ".staging-" n)
    (id : BuilderId) : name ≠ entryName id := by
  intro e
  exact OsPath.not_mem_shortHash (by decide) (e ▸ dot_mem_of_numbered h)

/-- The changes of a store: first those in the staging directory, then the removal of the old entry,
and at last the move of what was staged, or its removal if something has failed. -/
structure Course (c : DiskCache) (dir : Place) (id : BuilderId) (fp : Fingerprint)
    (outputs : Outputs) (read : RelativePath → Except FsError Bytes) (d : Disk)
    (result : Except CacheError Unit) (name : Bytes) (first : List DiskOp) (places : List Place)
    (last : List DiskOp) : Prop where
  numbered : ∃ n : Nat, name = Disk.numbered ".staging-" n
  staged : Along (Disk.Confined c.root dir name) d first
  removed : places = [] ∨ Disk.Emptying (dir ++ [entryName id]) (applyAll first d) places
  ended : (result = .ok () ∧ last = [.move (dir ++ [name]) (dir ++ [entryName id])] ∧
      (∃ encoded, fp.encode = .ok encoded ∧
        Filed (applyAll first d) (dir ++ [name]) id encoded outputs read) ∧
      ∀ place, Place.Inside (dir ++ [entryName id]) place →
        (applyAll (places.map .remove) (applyAll first d)).at? place = none) ∨
    ((∃ e, result = .error e) ∧ ∃ cleanup, last = cleanup.map .remove ∧
      (cleanup = [] ∨ Disk.Emptying (dir ++ [name])
        (applyAll (places.map .remove) (applyAll first d)) cleanup))

theorem traces_file {c : DiskCache} (h : d.Footing c.root dir) (hname : OsPath.IsName name)
    (hdir : d.at? (dir ++ [name]) = some .dir) (hne : name ≠ entryName id) :
    (do
      stage (c.root.push name) id encoded outputs read
      install (dir ++ [name]) (c.entryDir id) : DiskM CacheError Unit).Traces d fun result ops =>
      ∃ first places last, ops = first ++ places.map .remove ++ last ∧
        Along (Disk.Confined c.root dir name) d first ∧
        Installing dir name (entryName id) (applyAll first d) result places last ∧
        (result = .ok () →
          Filed (applyAll first d) (dir ++ [name]) id encoded outputs read) := by
  rw [entryDir_eq]
  refine .bind (Traces.and_meets (makes_stage h hname hdir) (meets_stage h hname hdir)) ?_ ?_
  · intro _ first ⟨halong, hwithin, hfiled⟩
    refine (traces_install hwithin.footing (hwithin.at?_dir hdir) (isName_entryName id)
      hne).mono ?_
    intro result ops ⟨places, last, heq, hinstalling⟩
    exact ⟨first, places, last, by rw [heq, List.append_assoc], halong, hinstalling,
      fun _ => hfiled rfl⟩
  · intro e first ⟨halong, _⟩
    exact ⟨first, [], [], by rw [List.map_nil, List.append_nil, List.append_nil], halong,
      ⟨.inl rfl, .inl ⟨⟨e, rfl⟩, rfl⟩⟩, nofun⟩

theorem traces_discard (h : d.Footing root dir) (hname : OsPath.IsName name) :
    (Disk.removeTree (root.push name)).Traces d fun _ ops => ∃ places, ops = places.map .remove ∧
      (places = [] ∨ Disk.Emptying (dir ++ [name]) d places) := by
  rw [OsPath.push_eq]
  refine (Disk.traces_removeTree h (List.forall_mem_singleton.2 hname)
    (List.cons_ne_nil _ _)).mono fun _ ops hops => ?_
  rcases hops with ⟨-, rfl⟩ | ⟨-, rfl⟩
  · exact ⟨[], rfl, .inl rfl⟩
  · exact ⟨_, rfl, .inr (Disk.emptying_removalOrder _ _)⟩

theorem traces_store {c : DiskCache} (h : d.Footing c.root dir) (id : BuilderId) (fp : Fingerprint)
    (outputs : Outputs) (read : RelativePath → Except FsError Bytes) :
    (c.store id fp outputs read).Traces d fun result ops => ∃ name first places last,
      ops = first ++ places.map .remove ++ last ∧
        Course c dir id fp outputs read d result name first places last := by
  have hnothing (e : CacheError) : ∃ name first places last,
      ([] : List DiskOp) = first ++ places.map .remove ++ last ∧
        Course c dir id fp outputs read d (.error e) name first places last :=
    ⟨_, [], [], [], rfl, ⟨0, rfl⟩, trivial, .inl rfl, .inr ⟨⟨e, rfl⟩, [], rfl, .inl rfl⟩⟩
  refine .ask_bind ?_ fun e _ => hnothing e
  intro encoded hencoded
  have hencoded := ok_of_mapError hencoded
  refine .ask_bind (fun place hplace => ?_) fun e _ => hnothing e
  cases h.dirAt_eq.symm.trans (ok_of_mapError hplace)
  refine .disk_bind ?_
  have hname : OsPath.IsName (d.freshName dir ".staging-") :=
    OsPath.isName_numbered (by decide) (by decide) _
  have hnumbered : ∃ n : Nat, d.freshName dir ".staging-" = Disk.numbered ".staging-" n :=
    ⟨_, rfl⟩
  generalize d.freshName dir ".staging-" = name at hname hnumbered ⊢
  have hentry : name ≠ entryName id := ne_entryName_of_numbered hnumbered id
  have hsingle : [name] ≠ [] := List.cons_ne_nil _ _
  have hnames : ∀ n ∈ [name], OsPath.IsName n := List.forall_mem_singleton.2 hname
  refine .ask_bind (fun made hplace => ?_) fun e _ => hnothing e
  obtain ⟨rfl, -⟩ := h.resolve_below hnames hsingle (ok_of_mapError hplace)
  dsimp only
  obtain ⟨h₁, -, -, hdir₁⟩ := makeDir_staging h hname rfl
  have hmade : Disk.Confined c.root dir name d (.makeDir (dir ++ [name])) := ⟨List.prefix_rfl, h₁⟩
  refine .change_bind (.tryCatch ((traces_file h₁ hname hdir₁ hentry).and_meets
    (meets_file h₁ hname hdir₁ hentry)) ?_ ?_)
  · intro _ ops ⟨⟨first, places, last, heq, halong, ⟨hremoved, hmoved⟩, hfiled⟩, _⟩
    refine ⟨name, _ :: first, places, last, by rw [heq]; rfl, hnumbered, ⟨hmade, halong⟩,
      hremoved, ?_⟩
    rcases hmoved with ⟨⟨e, heq⟩, -⟩ | ⟨hok, hlast, hclear⟩
    · cases heq
    · exact .inl ⟨hok, hlast, ⟨encoded, hencoded, hfiled hok⟩, hclear⟩
  · intro e ops ⟨⟨first, places, last, heq, halong, ⟨hremoved, hmoved⟩, _⟩, h₂, _⟩
    rcases hmoved with ⟨-, rfl⟩ | ⟨hok, -⟩
    · rw [List.append_nil] at heq
      subst heq
      refine .ignore_bind (traces_discard h₂ hname) fun _ _ ⟨cleanup, heq, hcleanup⟩ =>
        traces_throw ?_
      subst heq
      rw [applyAll_append] at hcleanup
      exact ⟨name, _ :: first, places, cleanup.map .remove, by rw [List.append_nil]; rfl, hnumbered,
        ⟨hmade, halong⟩, hremoved, .inr ⟨⟨e, rfl⟩, cleanup, rfl, hcleanup⟩⟩
    · cases hok

/-! ## Cutting -/

theorem of_isPrefix_append {α : Type} {l a b : List α} (h : l <+: a ++ b) :
    l <+: a ∨ ∃ m, m <+: b ∧ l = a ++ m := by
  obtain ⟨rest, h⟩ := h
  rcases List.append_eq_append_iff.1 h with ⟨m, rfl, -⟩ | ⟨m, rfl, hb⟩
  · exact .inl (List.prefix_append l m)
  · exact .inr ⟨m, ⟨rest, hb.symm⟩, rfl⟩

section Cutting

variable {c : DiskCache} {fp : Fingerprint} {result : Except CacheError Unit}
  {first last l' : List DiskOp} {places l : List Place}

theorem at?_of_confined {ops : List DiskOp} (h : Along (Disk.Confined root dir name) d ops)
    {q : Place} (hq : ¬dir ++ [name] <+: q) : (applyAll ops d).at? q = d.at? q :=
  h.invariant (P := fun d' => d'.at? q = d.at? q)
    (fun d' _ heq hop => (hop.1.at?_apply
      (Disk.named_ne_nil dir _) d' hq).trans heq) rfl

theorem footing_of_confined {ops : List DiskOp} (h : Along (Disk.Confined root dir name) d ops)
    (hfooting : d.Footing root dir) : (applyAll ops d).Footing root dir :=
  h.invariant (P := fun d' => d'.Footing root dir) (fun _ _ _ hop => hop.2) hfooting

/-- What the disk holds after some of the changes of a store, or after all if it is done. -/
structure Cut (c : DiskCache) (dir : Place) (name : Bytes) (id : BuilderId) (fp : Fingerprint)
    (outputs : Outputs) (read : RelativePath → Except FsError Bytes) (d d' : Disk) (done : Prop) :
    Prop where
  footing : d'.Footing c.root dir
  others : ∀ q, ¬dir ++ [name] <+: q → ¬dir ++ [entryName id] <+: q → d'.at? q = d.at? q
  /-- The entry has lost some pieces, or it is the new one as a whole. -/
  entry : ¬done ∧ Disk.Shrunk (dir ++ [entryName id]) d d' ∨
    done ∧ ∃ encoded, fp.encode = .ok encoded ∧
      Filed d' (dir ++ [entryName id]) id encoded outputs read

theorem Cut.undone {done : Prop} (h : Cut c dir name id fp outputs read d d' False)
    (hdone : ¬done) : Cut c dir name id fp outputs read d d' done :=
  ⟨h.footing, h.others, .inl ⟨hdone, (h.entry.resolve_right fun he => he.1).2⟩⟩

section Course

variable (h : Course c dir id fp outputs read d result name first places last)
  (hfooting : d.Footing c.root dir)

include h hfooting

theorem Course.cut_staging (hl : l' <+: first) :
    Cut c dir name id fp outputs read d (applyAll l' d) False := by
  have halong := h.staged.of_isPrefix hl
  refine ⟨footing_of_confined halong hfooting, fun q hq _ => at?_of_confined halong hq,
    .inl ⟨not_false, fun rest => .inl (at?_of_confined halong ?_)⟩⟩
  exact Disk.not_below_other (ne_entryName_of_numbered h.numbered _).symm rest

theorem Course.cut_removal (hl : l <+: places) :
    Cut c dir name id fp outputs read d (applyAll (l.map .remove) (applyAll first d)) False := by
  have hstaged := h.cut_staging hfooting List.prefix_rfl
  rcases h.removed with rfl | hemptying
  · cases List.prefix_nil.1 hl
    exact hstaged
  · have hsingle : [entryName id] ≠ [] := List.cons_ne_nil _ _
    have hplace : dir ++ [entryName id] ≠ [] := List.append_ne_nil_of_right_ne_nil _ hsingle
    refine ⟨Disk.Emptying.footing hsingle hemptying hstaged.footing hl, fun q hq hentry => ?_,
      .inl ⟨not_false, ?_⟩⟩
    · exact (hemptying.at?_of_not_below hplace hl hentry).trans (hstaged.others q hq hentry)
    · have hshrunk := (hstaged.entry.resolve_right fun he => he.1).2
      exact hshrunk.trans (hemptying.shrunk hplace hl _)

theorem Course.cut_before {ops : List DiskOp} (hops : ops <+: first ++ places.map .remove) :
    Cut c dir name id fp outputs read d (applyAll ops d) False := by
  rcases of_isPrefix_append hops with hops | ⟨l, hl, rfl⟩
  · exact h.cut_staging hfooting hops
  · obtain ⟨k, hk, rfl⟩ := List.prefix_map_iff.1 hl
    rw [applyAll_append]
    exact h.cut_removal hfooting hk

theorem Course.cut_moved {encoded : Bytes} (hencode : fp.encode = .ok encoded)
    (hfiled : Filed (applyAll first d) (dir ++ [name]) id encoded outputs read)
    (hclear : ∀ place, Place.Inside (dir ++ [entryName id]) place →
      (applyAll (places.map .remove) (applyAll first d)).at? place = none) :
    Cut c dir name id fp outputs read d
      ((DiskOp.move (dir ++ [name]) (dir ++ [entryName id])).apply
        (applyAll (places.map .remove) (applyAll first d))) True := by
  have hplace (n : Bytes) : dir ++ [n] ≠ [] := Disk.named_ne_nil _ _
  have hne := ne_entryName_of_numbered h.numbered id
  have hemptied := h.cut_removal hfooting List.prefix_rfl
  refine ⟨footing_move hemptied.footing (isName_entryName id) hclear, fun q hq hentry => ?_,
    .inr ⟨trivial, encoded, hencode, hfiled.congr fun rest => ?_⟩⟩
  · rw [at?_apply_move_elsewhere _ (hplace name) hentry, if_neg hq]
    exact hemptied.others q hq hentry
  · rw [at?_apply_move_below _ (hplace name) (hplace _) hclear rest]
    -- what was staged is still there when the old entry is gone
    rcases h.removed with rfl | hemptying
    · rfl
    · exact hemptying.at?_of_not_below (hplace _) List.prefix_rfl (Disk.not_below_other hne rest)

/-- Wherever the changes are cut, the entry has lost some pieces or is the new one. -/
theorem Course.cut {ops : List DiskOp} (hops : ops <+: first ++ places.map .remove ++ last) :
    Cut c dir name id fp outputs read d (applyAll ops d)
      (ops = first ++ places.map .remove ++ last ∧ result = .ok ()) := by
  rcases h.ended with ⟨hok, rfl, ⟨encoded, hencode, hfiled⟩, hclear⟩ |
    ⟨⟨e, herror⟩, cleanup, rfl, hcleanup⟩
  · rcases List.prefix_concat_iff.1 hops with rfl | hops
    · rw [applyAll_append, applyAll_append]
      have hmoved := h.cut_moved hfooting hencode hfiled hclear
      exact ⟨hmoved.footing, hmoved.others,
        .inr ⟨⟨rfl, hok⟩, (hmoved.entry.resolve_left fun he => he.1 trivial).2⟩⟩
    · refine (h.cut_before hfooting hops).undone fun ⟨heq, _⟩ => ?_
      have hlength := hops.length_le
      rw [heq, List.length_append, List.length_singleton] at hlength
      omega
  · have hdone : ¬(ops = first ++ places.map .remove ++ cleanup.map .remove ∧ result = .ok ()) :=
      fun hd => nomatch herror.symm.trans hd.2
    rcases of_isPrefix_append hops with hops | ⟨l, hl, rfl⟩
    · exact (h.cut_before hfooting hops).undone hdone
    · obtain ⟨k, hk, rfl⟩ := List.prefix_map_iff.1 hl
      have hemptied := h.cut_removal hfooting List.prefix_rfl
      refine Cut.undone ?_ hdone
      rw [applyAll_append, applyAll_append]
      rcases hcleanup with rfl | hcleanup
      · cases List.prefix_nil.1 hk
        exact hemptied
      · have hsingle : [name] ≠ [] := List.cons_ne_nil _ _
        have hplace : dir ++ [name] ≠ [] := List.append_ne_nil_of_right_ne_nil _ hsingle
        refine ⟨Disk.Emptying.footing hsingle hcleanup hemptied.footing hk,
          fun q hq hentry => ?_, .inl ⟨not_false, ?_⟩⟩
        · exact (hcleanup.at?_of_not_below hplace hk hq).trans (hemptied.others q hq hentry)
        · have hshrunk := (hemptied.entry.resolve_right fun he => he.1).2
          exact hshrunk.trans (hcleanup.shrunk hplace hk _)

end Course

end Cutting

/-! ## Removals in another order -/

/-- The same changes, but what lies in a directory is removed in another order, in which directories
are empty when they go. -/
def Resequenced (entry : Place) (ops ops' : List DiskOp) : Prop :=
  ∃ (before after : List DiskOp) (removed removed' : List Place),
    ops = before ++ removed.map .remove ++ after ∧
    ops' = before ++ removed'.map .remove ++ after ∧ (∀ p ∈ removed, entry <+: p) ∧
    (∀ p, entry <+: p → DiskOp.remove p ∉ before ++ after) ∧
    removed'.Perm removed ∧ removed'.Pairwise fun p q => ¬p <+: q

/-- What is told apart by a property can be cut out in one way only. -/
theorem append_unique {α : Type} {P : α → Prop} {a b c a' b' c' : List α}
    (ha : ∀ x ∈ a, ¬P x) (hb : ∀ x ∈ b, P x) (hc : ∀ x ∈ c, ¬P x) (ha' : ∀ x ∈ a', ¬P x)
    (hb' : ∀ x ∈ b', P x) (hc' : ∀ x ∈ c', ¬P x) (h : a ++ b ++ c = a' ++ b' ++ c') :
    b = b' ∧ (b = [] ∨ a = a' ∧ c = c') := by
  classical
  have hfilter {a b c : List α} (ha : ∀ x ∈ a, ¬P x) (hb : ∀ x ∈ b, P x) (hc : ∀ x ∈ c, ¬P x) :
      (a ++ b ++ c).filter (P ·) = b := by
    have hnone {l : List α} (hl : ∀ x ∈ l, ¬P x) : l.filter (P ·) = [] :=
      List.filter_eq_nil_iff.2 (by simpa using hl)
    have hall : b.filter (P ·) = b := List.filter_eq_self.2 (by simpa using hb)
    rw [List.filter_append, List.filter_append, hnone ha, hnone hc, hall, List.nil_append,
      List.append_nil]
  have hmiddle : b = b' := by rw [← hfilter ha hb hc, h, hfilter ha' hb' hc']
  subst hmiddle
  refine ⟨rfl, ?_⟩
  cases b with
  | nil => exact .inl rfl
  | cons x b =>
    refine .inr ?_
    have hx := hb x List.mem_cons_self
    rw [List.append_assoc, List.append_assoc] at h
    rcases List.append_eq_append_iff.1 h with ⟨more, rfl, heq⟩ | ⟨more, rfl, heq⟩
    · cases more with
      | nil => exact ⟨(List.append_nil a).symm, List.append_cancel_left heq⟩
      | cons y more =>
        rw [(List.cons.inj heq).1] at hx
        exact absurd hx (ha' y (List.mem_append_right a List.mem_cons_self))
    · cases more with
      | nil => exact ⟨List.append_nil a', (List.append_cancel_left heq).symm⟩
      | cons y more =>
        rw [(List.cons.inj heq).1] at hx
        exact absurd hx (ha y (List.mem_append_right a' List.mem_cons_self))

section Resequenced

variable {c : DiskCache} {fp : Fingerprint} {result : Except CacheError Unit}
  {first last ops ops' : List DiskOp} {places places' : List Place}

/-- A change that removes something in an entry. -/
def RemovesIn (entry : Place) (op : DiskOp) : Prop := ∃ p, op = .remove p ∧ entry <+: p

theorem Course.of_perm (h : Course c dir id fp outputs read d result name first places last)
    (hperm : places'.Perm places) (horder : places'.Pairwise fun p q => ¬p <+: q) :
    Course c dir id fp outputs read d result name first places' last := by
  have hplace : dir ++ [entryName id] ≠ [] := Disk.named_ne_nil _ _
  rcases h.removed with rfl | hemptying
  · cases hperm.eq_nil
    exact h
  · have hemptying' := hemptying.of_perm hperm horder
    have hsame (q : Place) : (applyAll (places'.map .remove) (applyAll first d)).at? q =
        (applyAll (places.map .remove) (applyAll first d)).at? q := by
      rw [hemptying.at?_eq hplace List.prefix_rfl, hemptying'.at?_eq hplace List.prefix_rfl]
      simp only [hperm.mem_iff]
    refine ⟨h.numbered, h.staged, .inr hemptying', ?_⟩
    rcases h.ended with ⟨hok, hlast, hfiled, hclear⟩ | ⟨herror, cleanup, hlast, hcleanup⟩
    · exact .inl ⟨hok, hlast, hfiled, fun q hq => (hsame q).trans (hclear q hq)⟩
    · exact .inr ⟨herror, cleanup, hlast, hcleanup.imp_right fun hd => hd.congr hsame⟩

theorem Course.not_removesIn (h : Course c dir id fp outputs read d result name first places last) :
    (∀ op ∈ first, ¬RemovesIn (dir ++ [entryName id]) op) ∧
      ∀ op ∈ last, ¬RemovesIn (dir ++ [entryName id]) op := by
  have hne := ne_entryName_of_numbered h.numbered id
  have hwithin {op : DiskOp} (hop : op.Within (dir ++ [name])) :
      ¬RemovesIn (dir ++ [entryName id]) op := by
    intro ⟨p, hp, hentry⟩
    subst hp
    obtain ⟨rest, rfl⟩ := hentry
    exact Disk.not_below_other hne.symm rest hop
  refine ⟨fun op hop => hwithin (h.staged.forall_mem (fun _ _ hd => hd.1) op hop),
    fun op hop => ?_⟩
  rcases h.ended with ⟨-, rfl, -⟩ | ⟨-, cleanup, rfl, hcleanup⟩
  · intro ⟨p, heq, _⟩
    cases (List.mem_singleton.1 hop).symm.trans heq
  · obtain ⟨p, hp, rfl⟩ := List.mem_map.1 hop
    rcases hcleanup with rfl | hcleanup
    · cases hp
    · exact hwithin (hcleanup.below p hp)

/-- A course of which the removals come in another order is one of the same kind. -/
theorem Course.of_resequenced (h : Course c dir id fp outputs read d result name first places last)
    (hops : Resequenced (dir ++ [entryName id]) (first ++ places.map .remove ++ last) ops') :
    ∃ places', ops' = first ++ places'.map .remove ++ last ∧
      Course c dir id fp outputs read d result name first places' last := by
  obtain ⟨before, after, removed, removed', heq, rfl, hbelow, hout, hperm, horder⟩ := hops
  obtain ⟨hfirst, hlast⟩ := h.not_removesIn
  have hremoves {l : List Place} (hl : ∀ p ∈ l, dir ++ [entryName id] <+: p) :
      ∀ op ∈ l.map DiskOp.remove, RemovesIn (dir ++ [entryName id]) op := by
    intro op hop
    obtain ⟨p, hp, rfl⟩ := List.mem_map.1 hop
    exact ⟨p, rfl, hl p hp⟩
  have hplaces : ∀ p ∈ places, dir ++ [entryName id] <+: p := by
    rcases h.removed with rfl | hemptying
    · exact fun p hp => (List.not_mem_nil hp).elim
    · exact hemptying.below
  have hnot {op : DiskOp} (hop : op ∈ before ++ after) :
      ¬RemovesIn (dir ++ [entryName id]) op := by
    intro ⟨p, hp, hentry⟩
    exact hout p hentry (hp ▸ hop)
  obtain ⟨hmiddle, hends⟩ := append_unique hfirst (hremoves hplaces) hlast
    (fun op hop => hnot (List.mem_append_left after hop)) (hremoves hbelow)
    (fun op hop => hnot (List.mem_append_right before hop)) heq
  cases (List.map_inj_right fun _ _ e => DiskOp.remove.inj e).1 hmiddle
  rcases hends with hnil | ⟨rfl, rfl⟩
  · cases List.map_eq_nil_iff.1 hnil
    cases hperm.eq_nil
    exact ⟨[], heq.symm, h⟩
  · exact ⟨removed', rfl, h.of_perm hperm horder⟩

theorem Course.resequenced_self
    (h : Course c dir id fp outputs read d result name first places last) :
    Resequenced (dir ++ [entryName id]) (first ++ places.map .remove ++ last)
      (first ++ places.map .remove ++ last) := by
  obtain ⟨hfirst, hlast⟩ := h.not_removesIn
  have hplaces : (∀ p ∈ places, dir ++ [entryName id] <+: p) ∧
      places.Pairwise fun p q => ¬p <+: q := by
    rcases h.removed with rfl | hemptying
    · exact ⟨fun p hp => (List.not_mem_nil hp).elim, List.Pairwise.nil⟩
    · exact ⟨hemptying.below, hemptying.order⟩
  refine ⟨first, last, places, places, rfl, rfl, hplaces.1, fun p hp hmem => ?_, .refl _, hplaces.2⟩
  rcases List.mem_append.1 hmem with hmem | hmem
  · exact hfirst _ hmem ⟨p, rfl, hp⟩
  · exact hlast _ hmem ⟨p, rfl, hp⟩

end Resequenced

/-- Wherever the changes of a store are cut, in whatever order the old entry is removed: the entry
has lost some pieces, or it is the new one as a whole. -/
theorem cut_store {c : DiskCache} (h : d.Footing c.root dir) {fp : Fingerprint}
    {ops' ops : List DiskOp}
    (hsequence : Resequenced (dir ++ [entryName id])
      ((c.store id fp outputs read).changes d) ops') (hops : ops <+: ops') :
    ∃ name, (∃ n : Nat, name = Disk.numbered ".staging-" n) ∧
      Cut c dir name id fp outputs read d (applyAll ops d)
        (ops = ops' ∧ ((c.store id fp outputs read).run d).1 = .ok ()) := by
  obtain ⟨⟨name, first, places, last, heq, hcourse⟩, -⟩ := (traces_store h id fp outputs read).run
  rw [heq] at hsequence
  obtain ⟨places', rfl, hcourse'⟩ := hcourse.of_resequenced hsequence
  exact ⟨name, hcourse'.numbered, hcourse'.cut h hops⟩

end DiskCache

end Rebuild
