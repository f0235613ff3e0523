import Rebuild.Cache.OnDisk
import Rebuild.Proofs.Disk.Removing
import Rebuild.Proofs.Disk.Writing

/-!
# What a cache does to the entries on the disk

An entry is a directory of the cache root. Whatever an operation comes to, an
entry is as it was, or it is gone, or it has been put in place as a whole by a
store that succeeded. What lies outside the root stays as it is.

* `DiskCache.Filed`: an entry that holds what was stored.
* `DiskCache.meets_store`: what a store does to the entries.
* `DiskCache.meets_remove`, `DiskCache.meets_clear`: what removals do.
* `CacheLock.meets_acquire`: opening a cache leaves the entries alone.
-/
namespace Rebuild
open DiskM

/-! ## Names in a cache -/

namespace DiskCache

/-- The file that says whose entry it is. -/
def indexName : Bytes := Bytes.ofText "entry.json"

/-- The file with the encoded fingerprint. -/
def fingerprintName : Bytes := Bytes.ofText "fingerprint.bin"

/-- The directory with the outputs. -/
def filesName : Bytes := Bytes.ofText "files"

/-- The directory of a builder's entry. -/
def entryName (id : BuilderId) : Bytes := Bytes.ofText (shortHash id.text)

theorem isName_indexName : OsPath.IsName indexName :=
  OsPath.isName_ofText (by decide) (by decide) (by decide) (by decide)

theorem isName_fingerprintName : OsPath.IsName fingerprintName :=
  OsPath.isName_ofText (by decide) (by decide) (by decide) (by decide)

theorem isName_filesName : OsPath.IsName filesName :=
  OsPath.isName_ofText (by decide) (by decide) (by decide) (by decide)

theorem isName_entryName (id : BuilderId) : OsPath.IsName (entryName id) :=
  OsPath.isName_shortHash id.text

theorem entryDir_eq (c : DiskCache) (id : BuilderId) :
    c.entryDir id = OsPath.below c.root [entryName id] := OsPath.child_eq c.root _

/-- The places of files of an entry, seen from its directory. -/
def filePlace (p : RelativePath) : Place := filesName :: p.segments.map Bytes.ofText

theorem isName_filePlace (p : RelativePath) : ∀ name ∈ filePlace p, OsPath.IsName name := by
  intro name h
  rcases List.mem_cons.1 h with rfl | h
  · exact isName_filesName
  · exact p.isName_segments name h

theorem filePlace_injective {p q : RelativePath} (h : filePlace p = filePlace q) : p = q := by
  refine RelativePath.ext_segments ?_
  exact (List.map_inj_right fun _ _ => Bytes.ofText_injective).1 (List.cons.inj h).2

theorem filePlace_ne (p : RelativePath) {name : Bytes} (hname : filesName ≠ name) :
    filePlace p ≠ [name] := fun e => hname (List.cons.inj e).1

theorem parentOf_eq {dir : LocalDirectory} (hroot : dir.root.trimStays = dir.root)
    (p : RelativePath) :
    dir.parentOf p = OsPath.below dir.root (p.segments.map Bytes.ofText).dropLast := by
  unfold LocalDirectory.parentOf RelativePath.parent?
  rw [← List.map_dropLast]
  by_cases h : p.segments.dropLast = []
  · rw [dif_pos h, h]
    exact hroot
  · rw [dif_neg h]
    exact RelativePath.under_eq _ _

theorem trimStays_filesIn (entry : OsPath) :
    (filesIn entry).root.trimStays = (filesIn entry).root :=
  OsPath.trimStays_push isName_filesName entry

theorem entryFile_eq (c : DiskCache) (id : BuilderId) (name : String) :
    (c.entryDir id).child name = OsPath.below c.root [entryName id, Bytes.ofText name] := by
  rw [entryDir_eq, OsPath.child_eq, OsPath.below_below, List.singleton_append]

theorem under_filesIn (c : DiskCache) (id : BuilderId) (p : RelativePath) :
    p.under (filesIn (c.entryDir id)).root = OsPath.below c.root (entryName id :: filePlace p) := by
  rw [RelativePath.under_eq, filesIn, entryFile_eq, OsPath.below_below]
  rfl

/-! ## Staging -/

/-- An entry that holds what was stored. -/
structure Filed (d : Disk) (entry : Place) (id : BuilderId) (encoded : Bytes) (outputs : Outputs)
    (read : RelativePath → Except FsError Bytes) : Prop where
  index : ∃ serial, d.at? (entry ++ [indexName]) = some (.file serial
    (Bytes.ofText (EntryIndex.text ⟨EntryIndex.currentVersion, id, outputs⟩)))
  fingerprint : ∃ serial, d.at? (entry ++ [fingerprintName]) = some (.file serial encoded)
  files : ∀ p ∈ outputs, ∃ serial content, read p = .ok content ∧
    d.at? (entry ++ filePlace p) = some (.file serial content)

section Staging

variable {d d' : Disk} {root : OsPath} {dir entry entry' : Place} {name : Bytes} {id : BuilderId}
  {encoded : Bytes} {outputs : Outputs} {read : RelativePath → Except FsError Bytes}

theorem Filed.congr (h : Filed d entry id encoded outputs read)
    (hat : ∀ rest, d'.at? (entry' ++ rest) = d.at? (entry ++ rest)) :
    Filed d' entry' id encoded outputs read := by
  refine ⟨?_, ?_, ?_⟩
  · rw [hat]
    exact h.index
  · rw [hat]
    exact h.fingerprint
  · intro p hp
    rw [hat]
    exact h.files p hp

/-- Nothing has changed but in the staging directory. -/
structure Within (root : OsPath) (dir : Place) (name : Bytes) (d d' : Disk) : Prop where
  footing : d'.Footing root dir
  outside : ∀ q, ¬Place.Inside (dir ++ [name]) q → d'.at? q = d.at? q

theorem Within.at?_dir (h : Within root dir name d d') (hdir : d.at? (dir ++ [name]) = some .dir) :
    d'.at? (dir ++ [name]) = some .dir :=
  (h.outside _ (Disk.not_inside_self _)).trans hdir

/-- A staging directory under way: the outputs that are not `left` any more are there. -/
structure Staging (root : OsPath) (dir : Place) (name : Bytes) (outputs : Outputs)
    (read : RelativePath → Except FsError Bytes) (d : Disk) (left : List RelativePath)
    (d' : Disk) : Prop extends Within root dir name d d' where
  files : ∀ p ∈ outputs, p ∉ left → ∃ serial content, read p = .ok content ∧
    d'.at? (dir ++ [name] ++ filePlace p) = some (.file serial content)

theorem Staging.meets_write {p : RelativePath} {left : List RelativePath} {content : Bytes}
    (h : Staging root dir name outputs read d (p :: left) d')
    (hname : OsPath.IsName name) (hdir : d.at? (dir ++ [name]) = some .dir)
    (hread : read p = .ok content) :
    ((filesIn (OsPath.below root [name])).write p content).Meets d' fun result d'' =>
      Within root dir name d d'' ∧
        (result = .ok () → Staging root dir name outputs read d left d'') := by
  have hparent : (filesIn (OsPath.below root [name])).parentOf p =
      OsPath.below root (name :: filesName :: (p.segments.map Bytes.ofText).dropLast) :=
    parentOf_eq (trimStays_filesIn _) p
  have hfile : p.under (filesIn (OsPath.below root [name])).root =
      OsPath.below root (name :: filePlace p) := RelativePath.under_eq p _
  have hplace : dir ++ name :: filePlace p = dir ++ [name] ++ filePlace p :=
    List.append_cons dir name _
  have hnames {names : List Bytes} (hn : ∀ n ∈ names, OsPath.IsName n) :
      ∀ n ∈ name :: names, OsPath.IsName n := List.forall_mem_cons.2 ⟨hname, hn⟩
  have hdirs : ∀ n ∈ filesName :: (p.segments.map Bytes.ofText).dropLast, OsPath.IsName n :=
    List.forall_mem_cons.2
      ⟨isName_filesName, fun n hn => p.isName_segments n (List.dropLast_subset _ hn)⟩
  unfold LocalDirectory.write
  rw [hparent, hfile]
  refine (Disk.meets_replaceFile h.footing (h.at?_dir hdir) (hnames hdirs)
    (hnames (isName_filePlace p)) content).mapError.mono
    fun _ d'' ⟨_, heq, hfooting, hwrote, hwritten⟩ => ?_
  subst heq
  rw [hplace] at hwrote hwritten
  have hwithin : Within root dir name d d'' := by
    refine ⟨hfooting, ?_⟩
    intro q hq
    rcases hwrote q with heq | ⟨hin, -, -⟩ | ⟨heq, -⟩
    · exact heq.trans (h.outside q hq)
    · exact absurd hin hq
    · exact absurd (heq ▸ Disk.inside_append _ (List.cons_ne_nil _ _)) hq
  refine ⟨hwithin, fun hok => ⟨hwithin, ?_⟩⟩
  intro p' hp' hleft
  have hwritten := hwritten (ok_of_mapError hok)
  by_cases hp : p' = p
  · obtain ⟨serial, hat⟩ := hwritten
    exact ⟨serial, content, hp ▸ hread, hp ▸ hat⟩
  · obtain ⟨serial, content', hread', hat⟩ := h.files p' hp' fun hmem =>
      (List.mem_cons.1 hmem).elim hp hleft
    rcases hwrote (dir ++ [name] ++ filePlace p') with heq | ⟨-, hnone, -⟩ | ⟨heq, -⟩
    · exact ⟨serial, content', hread', heq.trans hat⟩
    · cases hnone.symm.trans hat
    · exact absurd (filePlace_injective (List.append_cancel_left heq)) hp

theorem Within.meets_outputs (h : Within root dir name d d') (hname : OsPath.IsName name)
    (hdir : d.at? (dir ++ [name]) = some .dir) :
    (forIn outputs.toList PUnit.unit fun p _ => do
      let content ← ask fun _ => (read p).mapError (.artifact id)
      ((filesIn (OsPath.below root [name])).write p content).mapError (.artifact id)
      pure (.yield ⟨⟩) : DiskM CacheError PUnit).Meets d' fun result d'' =>
      Within root dir name d d'' ∧
        (result = .ok ⟨⟩ → Staging root dir name outputs read d [] d'') := by
  refine meets_forIn (Staging root dir name outputs read d) ?_
    (fun d₁ hs => ⟨hs.toWithin, fun _ => hs⟩) _ _ ⟨h, ?_⟩
  · intro p left d₁ hs
    refine .ask_bind ?_ fun e _ => .inr ⟨e, rfl, hs.toWithin, nofun⟩
    intro content hread
    have hread : read p = .ok content := ok_of_mapError hread
    refine .bind (hs.meets_write hname hdir hread).mapError ?_ ?_
    · intro _ d₂ ⟨_, heq, _, hok⟩
      exact meets_pure (.inl ⟨rfl, hok (ok_of_mapError heq.symm)⟩)
    · intro e d₂ ⟨_, _, hwithin, _⟩
      exact .inr ⟨e, rfl, hwithin, nofun⟩
  · intro p hp hleft
    exact absurd ((SortedSet.mem_toList _ _).2 hp) hleft

theorem Within.meets_put (h : Within root dir name d d') (hname : OsPath.IsName name)
    {file : String} (hfile : OsPath.IsName (Bytes.ofText file)) (content : Bytes) :
    (Disk.writeFile ((OsPath.below root [name]).child file) content).Meets d' fun result d'' =>
      Within root dir name d d'' ∧
      (∀ q, q ≠ dir ++ [name] ++ [Bytes.ofText file] → d''.at? q = d'.at? q) ∧
      (result = .ok () → ∃ serial,
        d''.at? (dir ++ [name] ++ [Bytes.ofText file]) = some (.file serial content)) := by
  have hnames : ∀ n ∈ [name, Bytes.ofText file], OsPath.IsName n :=
    List.forall_mem_cons.2 ⟨hname, List.forall_mem_singleton.2 hfile⟩
  have hplace : dir ++ [name, Bytes.ofText file] = dir ++ [name] ++ [Bytes.ofText file] :=
    List.append_cons dir name _
  rw [OsPath.child_eq, OsPath.below_below]
  refine (Disk.meets_writeFile h.footing hnames (List.cons_ne_nil _ _) content).mono
    ?_
  intro result d'' ⟨hfooting, hwrote, hwritten⟩
  rw [hplace] at hwrote hwritten
  have hsame (q : Place) (hq : q ≠ dir ++ [name] ++ [Bytes.ofText file]) :
      d''.at? q = d'.at? q := (hwrote q).resolve_right fun hw => hq hw.1
  refine ⟨⟨hfooting, fun q hq => (hsame q fun e => hq ?_).trans (h.outside q hq)⟩, hsame, hwritten⟩
  exact e ▸ Disk.inside_append _ (List.cons_ne_nil _ _)

/-- When all outputs are there, the other two files make the entry. -/
theorem Staging.meets_seal (h : Staging root dir name outputs read d [] d')
    (hname : OsPath.IsName name) :
    (do
      (Disk.writeFile ((OsPath.below root [name]).child "entry.json") (Bytes.ofText
        (EntryIndex.text ⟨EntryIndex.currentVersion, id, outputs⟩))).mapError
        (.io ((OsPath.below root [name]).child "entry.json"))
      (Disk.writeFile ((OsPath.below root [name]).child "fingerprint.bin") encoded).mapError
        (.io ((OsPath.below root [name]).child "fingerprint.bin")) :
      DiskM CacheError Unit).Meets d' fun result d'' =>
      Within root dir name d d'' ∧
        (result = .ok () → Filed d'' (dir ++ [name]) id encoded outputs read) := by
  refine .bind (h.meets_put hname isName_indexName _).mapError
    ?_ fun e d₁ ⟨_, _, h₁, _, _⟩ => ⟨h₁, nofun⟩
  intro _ d₁ ⟨_, heq, h₁, hsame, hwritten⟩
  have hindexed := hwritten (ok_of_mapError heq.symm)
  refine (h₁.meets_put hname isName_fingerprintName encoded).mapError.mono
    ?_
  intro _ d₂ ⟨_, heq', h₂, hsame', hwritten'⟩
  subst heq'
  refine ⟨h₂, fun hok => ⟨?_, hwritten' (ok_of_mapError hok), ?_⟩⟩
  · have hne : indexName ≠ fingerprintName := by decide
    rw [hsame' _ fun e => hne (List.cons.inj (List.append_cancel_left e)).1]
    exact hindexed
  · intro p hp
    have hapart {file : Bytes} (hne : filesName ≠ file) :
        dir ++ [name] ++ filePlace p ≠ dir ++ [name] ++ [file] := fun e =>
      filePlace_ne p hne (List.append_cancel_left e)
    rw [hsame' _ (hapart (by decide)), hsame _ (hapart (by decide))]
    exact h.files p hp List.not_mem_nil

/-- Staging an entry touches nothing but the staging directory. -/
theorem meets_stage (h : d.Footing root dir) (hname : OsPath.IsName name)
    (hdir : d.at? (dir ++ [name]) = some .dir) :
    (stage (OsPath.below root [name]) id encoded outputs read).Meets d fun result d' =>
      Within root dir name d d' ∧
        (result = .ok () → Filed d' (dir ++ [name]) id encoded outputs read) := by
  have hnames : ∀ n ∈ [name, filesName], OsPath.IsName n :=
    List.forall_mem_cons.2 ⟨hname, List.forall_mem_singleton.2 isName_filesName⟩
  have hmake : (Disk.makeDirs (filesIn (OsPath.below root [name])).root).Meets d fun _ d₁ =>
      Within root dir name d d₁ :=
    (Disk.meets_makeDirs h hdir hnames).mono fun _ d₁ ⟨h₁, hgrew⟩ =>
      ⟨h₁, fun q hq => (hgrew q).resolve_right fun hg => hq hg.1⟩
  refine .bind hmake.mapError ?_ fun e d₁ ⟨_, _, h₁⟩ => ⟨h₁, nofun⟩
  intro _ d₁ ⟨_, _, h₁⟩
  refine .bind (h₁.meets_outputs hname hdir) ?_
    fun e d₂ ⟨h₂, _⟩ => ⟨h₂, nofun⟩
  intro _ d₂ ⟨_, hstaged⟩
  exact (hstaged rfl).meets_seal hname

end Staging

/-! ## Storing -/

section Storing

variable {d d' : Disk} {root : OsPath} {dir : Place} {name entry : Bytes}

/-- What an installation comes to: what was staged is in place, or the entry is as it was, or it is
gone. -/
structure Installed (root : OsPath) (dir : Place) (name entry : Bytes) (d : Disk)
    (result : Except CacheError Unit) (d' : Disk) : Prop where
  footing : d'.Footing root dir
  outside : d.AgreesOff dir d'
  others : ∀ other, other ≠ name → other ≠ entry → Disk.Same (dir ++ [other]) d d'
  entry : (result = .ok () ∧
      ∀ rest, d'.at? (dir ++ [entry] ++ rest) = d.at? (dir ++ [name] ++ rest)) ∨
    ((∃ e, result = .error e) ∧
      (Disk.Same (dir ++ [entry]) d d' ∨ Disk.Gone (dir ++ [entry]) d'))

theorem footing_move (h : d.Footing root dir) (hentry : OsPath.IsName entry)
    (hclear : ∀ place, Place.Inside (dir ++ [entry]) place → d.at? place = none) :
    ((DiskOp.move (dir ++ [name]) (dir ++ [entry])).apply d).Footing root dir := by
  have hplace (n : Bytes) : dir ++ [n] ≠ [] := Disk.named_ne_nil _ _
  refine @Disk.Footing.moved d _ root dir [entry] [name] h (List.cons_ne_nil _ _)
    (List.cons_ne_nil _ _) ?_
    (fun q hq => DiskOp.at?_apply_move_elsewhere d (hplace name) hq) ?_ ?_ ?_
  · intro rest
    rw [← List.append_assoc, ← List.append_assoc]
    exact DiskOp.at?_apply_move_below d (hplace name) (hplace entry) hclear rest
  · rw [List.dropLast_singleton, List.append_nil, h.at?_dir]
  · intro e
    exact List.cons_ne_nil _ _ (List.prefix_nil.1 e)
  · intro n e
    cases e
    exact hentry

theorem meets_move {d₁ : Disk} (h₁ : d₁.Footing root dir) (hdir : d.at? (dir ++ [name]) = some .dir)
    (hentry : OsPath.IsName entry) (hne : name ≠ entry) (houtside : d.AgreesOff dir d₁)
    (hothers : ∀ other, other ≠ entry → Disk.Same (dir ++ [other]) d d₁)
    (hkept : Disk.Same (dir ++ [entry]) d d₁ ∨ Disk.Gone (dir ++ [entry]) d₁) :
    ((Disk.rename (dir ++ [name]) (OsPath.below root [entry])).mapError
      (.io (OsPath.below root [entry]))).Meets d₁ (Installed root dir name entry d) := by
  have hstaged : d₁.at? (dir ++ [name]) = some .dir := by
    have := hothers name hne []
    rw [List.append_nil] at this
    exact this.trans hdir
  have hnames : ∀ n ∈ [entry], OsPath.IsName n := List.forall_mem_singleton.2 hentry
  refine (Disk.meets_rename h₁ hnames (List.cons_ne_nil _ _) hstaged).mapError.mono
    ?_
  intro _ d' ⟨_, heq, hrenamed⟩
  subst heq
  rcases hrenamed with ⟨⟨e, rfl⟩, rfl⟩ | ⟨rfl, hvacant, rfl⟩
  · exact ⟨h₁, houtside, fun other _ hother => hothers other hother, .inr ⟨⟨_, rfl⟩, hkept⟩⟩
  · have hplace (n : Bytes) : dir ++ [n] ≠ [] := Disk.named_ne_nil _ _
    have hbelow := DiskOp.at?_apply_move_below d₁ (hplace name) (hplace entry) hvacant.clear
    have helsewhere {q : Place} (hq : ¬dir ++ [entry] <+: q) :=
      DiskOp.at?_apply_move_elsewhere d₁ (hplace name) hq
    refine ⟨footing_move h₁ hentry hvacant.clear, ?_, ?_, .inl ⟨rfl, ?_⟩⟩
    · refine houtside.trans ?_
      intro q hq
      have hout (n : Bytes) : ¬dir ++ [n] <+: q := fun e =>
        hq (Disk.inside_of_below (List.cons_ne_nil _ _) e)
      rw [helsewhere (hout entry), if_neg (hout name)]
    · intro other hname hother
      refine (hothers other hother).trans ?_
      intro rest
      rw [helsewhere (Disk.not_below_other hother rest), if_neg (Disk.not_below_other hname rest)]
    · intro rest
      exact (hbelow rest).trans (hothers name hne rest)

theorem meets_install (h : d.Footing root dir) (hdir : d.at? (dir ++ [name]) = some .dir)
    (hentry : OsPath.IsName entry) (hne : name ≠ entry) :
    (install (dir ++ [name]) (OsPath.below root [entry])).Meets d
      (Installed root dir name entry d) := by
  have hnames : ∀ n ∈ [entry], OsPath.IsName n := List.forall_mem_singleton.2 hentry
  refine .disk_bind ?_
  dsimp only
  split
  · refine .bind (Disk.meets_removeTree h hnames (List.cons_ne_nil _ _)).mapError
      ?_ ?_
    · intro _ d₁ ⟨ended, heq, hremoved⟩
      rcases hremoved with ⟨⟨e, rfl⟩, -⟩ | ⟨-, hpruned⟩
      · cases heq
      · exact meets_move (h.pruned (List.cons_ne_nil _ _) hpruned) hdir hentry hne
          (hpruned.agreesOff (List.cons_ne_nil _ _)) (fun _ hother => hpruned.same hother)
          (.inr hpruned.gone)
    · intro _ d₁ ⟨ended, heq, hremoved⟩
      rcases hremoved with ⟨-, rfl⟩ | ⟨rfl, -⟩
      · exact ⟨h, .refl, fun _ _ _ => .refl, .inr ⟨⟨_, rfl⟩, .inl .refl⟩⟩
      · cases heq
  · exact meets_move h hdir hentry hne .refl (fun _ _ => .refl) (.inl .refl)

theorem not_inside_of_outside {q : Place} (hq : ¬dir.Inside q) :
    ¬Place.Inside (dir ++ [name]) q := by
  intro ⟨first, rest, e⟩
  refine hq ⟨name, first :: rest, ?_⟩
  rw [e, List.append_assoc]
  rfl

theorem makeDir_staging (h : d.Footing root dir) (hname : OsPath.IsName name)
    (hmade : d' = (DiskOp.makeDir (dir ++ [name])).apply d) :
    d'.Footing root dir ∧ d.AgreesOff dir d' ∧
      (∀ other, other ≠ name → Disk.Same (dir ++ [other]) d d') ∧
      d'.at? (dir ++ [name]) = some .dir := by
  have hplace : dir ++ [name] ≠ [] := Disk.named_ne_nil _ _
  have hat := DiskOp.at?_apply_makeDir d hplace
  rw [← hmade] at hat
  refine ⟨?_, ?_, ?_, ?_⟩
  · refine h.put (List.cons_ne_nil _ _) hat (fun _ => nofun) ?_ (fun _ => rfl) ?_
    · rw [List.dropLast_singleton, List.append_nil]
      exact h.at?_dir
    · intro n e
      cases e
      exact hname
  · intro q hq
    have hne : q ≠ dir ++ [name] := fun e => hq (e ▸ Disk.inside_append dir (List.cons_ne_nil _ _))
    rw [hat, if_neg hne]
  · intro other hother rest
    have hne := @Disk.append_ne_of_ne dir _ _ hother rest []
    rw [List.append_nil] at hne
    rw [hat, if_neg hne]
  · rw [hat, if_pos rfl]

/-- Staging an entry and installing it. -/
theorem meets_file {c : DiskCache} {id : BuilderId} {encoded : Bytes} {outputs : Outputs}
    {read : RelativePath → Except FsError Bytes} (h : d.Footing c.root dir)
    (hname : OsPath.IsName name) (hdir : d.at? (dir ++ [name]) = some .dir)
    (hne : name ≠ entryName id) :
    (do
      stage (c.root.push name) id encoded outputs read
      install (dir ++ [name]) (c.entryDir id) : DiskM CacheError Unit).Meets d fun result d' =>
      d'.Footing c.root dir ∧ d.AgreesOff dir d' ∧
      ∀ other, other ≠ name →
        Disk.Same (dir ++ [other]) d d' ∨ Disk.Gone (dir ++ [other]) d' ∨
        result = .ok () ∧ other = entryName id ∧
          Filed d' (dir ++ [other]) id encoded outputs read := by
  have hstaging {d₁ : Disk} (houtside : ∀ q, ¬Place.Inside (dir ++ [name]) q → d₁.at? q = d.at? q) :
      d.AgreesOff dir d₁ ∧ ∀ other, other ≠ name → Disk.Same (dir ++ [other]) d d₁ :=
    ⟨fun q hq => houtside q (not_inside_of_outside hq),
      fun other hother rest => houtside _ (Disk.not_inside_other hother rest)⟩
  refine .bind (meets_stage h hname hdir) ?_ ?_
  · intro _ d₁ ⟨⟨h₁, houtside⟩, hfiled⟩
    have hfiled := hfiled rfl
    have hdir₁ : d₁.at? (dir ++ [name]) = some .dir :=
      (houtside _ (Disk.not_inside_self _)).trans hdir
    obtain ⟨hoff, hsame⟩ := hstaging houtside
    rw [entryDir_eq]
    refine (meets_install h₁ hdir₁ (isName_entryName id) hne).mono ?_
    intro result d₂ hd
    refine ⟨hd.footing, hoff.trans hd.outside, ?_⟩
    intro other hother
    by_cases hentry : other = entryName id
    · rw [hentry] at hother ⊢
      rcases hd.entry with ⟨hok, hmoved⟩ | ⟨-, hkept | hgone⟩
      · exact .inr (.inr ⟨hok, rfl, hfiled.congr hmoved⟩)
      · exact .inl ((hsame _ hother).trans hkept)
      · exact .inr (.inl hgone)
    · exact .inl ((hsame other hother).trans (hd.others other hother hentry))
  · intro e d₁ ⟨⟨h₁, houtside⟩, _⟩
    obtain ⟨hoff, hsame⟩ := hstaging houtside
    exact ⟨h₁, hoff, fun other hother => .inl (hsame other hother)⟩

/-- What a store comes to: an entry is as it was, or gone, or holds what was stored. -/
structure Stored (c : DiskCache) (dir : Place) (id : BuilderId) (fp : Fingerprint)
    (outputs : Outputs) (read : RelativePath → Except FsError Bytes) (d d' : Disk) : Prop where
  footing : d'.Footing c.root dir
  outside : d.AgreesOff dir d'
  /-- Names of entries have no dots. -/
  entries : ∀ name, 0x2E ∉ name → Disk.Same (dir ++ [name]) d d' ∨ Disk.Gone (dir ++ [name]) d' ∨
    name = entryName id ∧ ∃ encoded, fp.encode = .ok encoded ∧
      Filed d' (dir ++ [name]) id encoded outputs read

theorem meets_store {c : DiskCache} (h : d.Footing c.root dir) (id : BuilderId) (fp : Fingerprint)
    (outputs : Outputs) (read : RelativePath → Except FsError Bytes) :
    (c.store id fp outputs read).Meets d fun _ d' => Stored c dir id fp outputs read d d' := by
  have hnothing : Stored c dir id fp outputs read d d := ⟨h, .refl, fun _ _ => .inl .refl⟩
  refine .ask_bind ?_ fun _ _ => hnothing
  intro encoded hencoded
  have hencoded := ok_of_mapError hencoded
  refine .ask_bind (fun place hplace => ?_) fun _ _ => hnothing
  cases h.dirAt_eq.symm.trans (ok_of_mapError hplace)
  refine .disk_bind ?_
  have hfree := d.at?_freshName dir ".staging-"
  have hname : OsPath.IsName (d.freshName dir ".staging-") :=
    OsPath.isName_numbered (by decide) (by decide) _
  have hdot : 0x2E ∈ d.freshName dir ".staging-" := by
    unfold Disk.freshName Disk.numbered
    rw [Bytes.ofText_append]
    exact List.mem_append_left _ (by decide)
  generalize d.freshName dir ".staging-" = name at hfree hname hdot ⊢
  have hother {n : Bytes} (hn : 0x2E ∉ n) : n ≠ name := fun e => hn (e ▸ hdot)
  have hentry : name ≠ entryName id := fun e => OsPath.not_mem_shortHash (by decide) (e ▸ hdot)
  have hsingle : [name] ≠ [] := List.cons_ne_nil _ _
  have hnames : ∀ n ∈ [name], OsPath.IsName n := List.forall_mem_singleton.2 hname
  refine .ask_bind (fun made hmade => ?_) fun _ _ => hnothing
  obtain ⟨rfl, -⟩ := h.resolve_below hnames hsingle (ok_of_mapError hmade)
  refine .change_bind ?_
  obtain ⟨h₁, hoff₁, hsame₁, hdir₁⟩ := makeDir_staging h hname rfl
  generalize (DiskOp.makeDir (dir ++ [name])).apply d = d₁ at h₁ hoff₁ hsame₁ hdir₁ ⊢
  refine .tryCatch (meets_file h₁ hname hdir₁ hentry) ?_ ?_
  · intro _ d₂ ⟨h₂, hoff₂, hentries⟩
    refine ⟨h₂, hoff₁.trans hoff₂, ?_⟩
    intro n hn
    rcases hentries n (hother hn) with hsame | hgone | ⟨-, hentry, hfiled⟩
    · exact .inl ((hsame₁ n (hother hn)).trans hsame)
    · exact .inr (.inl hgone)
    · exact .inr (.inr ⟨hentry, encoded, hencoded, hfiled⟩)
  · intro e d₂ ⟨h₂, hoff₂, hentries⟩
    refine .ignore_bind (Disk.meets_removeTree h₂ hnames hsingle) fun _ d₃ hremoved =>
      meets_throw ?_
    have hlast : d₃.Footing c.root dir ∧ d₂.AgreesOff dir d₃ ∧
        ∀ n, 0x2E ∉ n → Disk.Same (dir ++ [n]) d₂ d₃ := by
      rcases hremoved with ⟨-, rfl⟩ | ⟨-, hpruned⟩
      · exact ⟨h₂, .refl, fun _ _ => .refl⟩
      · exact ⟨h₂.pruned hsingle hpruned, hpruned.agreesOff hsingle,
          fun _ hn => hpruned.same (hother hn)⟩
    obtain ⟨h₃, hoff₃, hlast⟩ := hlast
    refine ⟨h₃, (hoff₁.trans hoff₂).trans hoff₃, ?_⟩
    intro n hn
    have hlast := hlast n hn
    rcases hentries n (hother hn) with hsame | hgone | ⟨hok, -⟩
    · exact .inl (((hsame₁ n (hother hn)).trans hsame).trans hlast)
    · exact .inr (.inl fun rest => (hlast rest).trans (hgone rest))
    · cases hok

end Storing

/-! ## Removing and opening -/

section Removing

variable {c : DiskCache} {d d' d'' : Disk} {dir : Place}

/-- Entries are as they were, or gone. -/
structure Thinned (c : DiskCache) (dir : Place) (d d' : Disk) : Prop where
  footing : d'.Footing c.root dir
  outside : d.AgreesOff dir d'
  entries : ∀ name, Disk.Same (dir ++ [name]) d d' ∨ Disk.Gone (dir ++ [name]) d'

theorem Thinned.refl (h : d.Footing c.root dir) : Thinned c dir d d :=
  ⟨h, .refl, fun _ => .inl .refl⟩

theorem Thinned.trans (h : Thinned c dir d d') (h' : Thinned c dir d' d'') :
    Thinned c dir d d'' := by
  refine ⟨h'.footing, h.outside.trans h'.outside, ?_⟩
  intro name
  rcases h'.entries name with hsame' | hgone'
  · rcases h.entries name with hsame | hgone
    · exact .inl (hsame.trans hsame')
    · exact .inr fun rest => (hsame' rest).trans (hgone rest)
  · exact .inr hgone'

theorem Thinned.of_pruned {name : Bytes} (h : d.Footing c.root dir)
    (hpruned : Disk.Pruned (dir ++ [name]) d d') : Thinned c dir d d' := by
  refine ⟨h.pruned (List.cons_ne_nil _ _) hpruned, hpruned.agreesOff (List.cons_ne_nil _ _),
    ?_⟩
  intro other
  by_cases hother : other = name
  · exact .inr (hother ▸ hpruned.gone)
  · exact .inl (hpruned.same hother)

/-- A removal leaves all as it is, or it finds the directory of the entry and removes it. -/
theorem meets_remove_entry (h : d.Footing c.root dir) (id : BuilderId) :
    (c.remove id).Meets d fun result d' => (result ≠ .ok true ∧ d' = d) ∨
      (result = .ok true ∧ d.at? (dir ++ [entryName id]) = some .dir ∧
        Disk.Pruned (dir ++ [entryName id]) d d') := by
  have hnames : ∀ n ∈ [entryName id], OsPath.IsName n :=
    List.forall_mem_singleton.2 (isName_entryName id)
  have hsingle : [entryName id] ≠ [] := List.cons_ne_nil _ _
  unfold remove
  rw [entryDir_eq]
  refine .attempt_bind ((Disk.meets_removeTree h hnames hsingle).and
    (Disk.meets_removeTree_dir h hnames hsingle)) ?_
  intro result d' ⟨hremoved, hdir⟩
  rcases hremoved with ⟨⟨e, rfl⟩, rfl⟩ | ⟨rfl, hpruned⟩
  · cases e with
    | missing => exact meets_pure (.inl ⟨nofun, rfl⟩)
    | _ => exact meets_throw (.inl ⟨nofun, rfl⟩)
  · exact meets_pure (.inr ⟨rfl, hdir rfl, hpruned⟩)

theorem meets_remove (h : d.Footing c.root dir) (id : BuilderId) :
    (c.remove id).Meets d fun _ d' => Thinned c dir d d' := by
  refine (meets_remove_entry h id).mono fun _ d' hremoved => ?_
  rcases hremoved with ⟨-, rfl⟩ | ⟨-, -, hpruned⟩
  · exact .refl h
  · exact .of_pruned h hpruned

theorem meets_clear (h : d.Footing c.root dir) :
    c.clear.Meets d fun _ d' => Thinned c dir d d' := by
  refine .ask_bind (fun place hplace => ?_) fun _ _ => .refl h
  cases h.dirAt_eq.symm.trans (ok_of_mapError hplace)
  refine .disk_bind ?_
  refine .bind (p := fun _ d' => Thinned c dir d d') (meets_forIn
    (fun rest d' => (∀ e ∈ rest, OsPath.IsName e.1) ∧ Thinned c dir d d') ?_ (fun _ hd => hd.2) _ _
    ⟨fun e he => h.named e.1 (by rw [Disk.mem_children.1 he]; nofun), .refl h⟩)
    (fun _ _ hd => meets_pure hd) fun _ _ hd => hd
  intro ⟨name, item⟩ rest d₁ ⟨hrest, hd⟩
  obtain ⟨hname, hrest⟩ := List.forall_mem_cons.1 hrest
  have hnames : ∀ n ∈ [name], OsPath.IsName n := List.forall_mem_singleton.2 hname
  dsimp only
  split
  · exact meets_pure (.inl ⟨rfl, hrest, hd⟩)
  · refine .disk_bind ?_
    have hremove : (if d₁.isDir (c.root.push name) = true then Disk.removeTree (c.root.push name)
        else Disk.removeFile (c.root.push name)).Meets d₁ fun result d₂ =>
        ((∃ e, result = .error e) ∧ d₂ = d₁) ∨
          (result = .ok () ∧ Disk.Pruned (dir ++ [name]) d₁ d₂) := by
      rw [OsPath.push_eq]
      split
      · exact Disk.meets_removeTree hd.footing hnames (List.cons_ne_nil _ _)
      · exact Disk.meets_removeFile hd.footing hnames (List.cons_ne_nil _ _)
    refine .bind hremove.mapError ?_ ?_
    · intro _ d₂ ⟨ended, heq, hended⟩
      rcases hended with ⟨⟨e, rfl⟩, -⟩ | ⟨-, hpruned⟩
      · cases heq
      · exact meets_pure (.inl ⟨rfl, hrest, hd.trans (.of_pruned hd.footing hpruned)⟩)
    · intro e d₂ ⟨ended, heq, hended⟩
      rcases hended with ⟨-, rfl⟩ | ⟨rfl, -⟩
      · exact .inr ⟨e, rfl, hd⟩
      · cases heq

end Removing

end DiskCache

/-! ## Opening -/

namespace CacheLock

/-- The lock file in a cache root. -/
def fileName : Bytes := Bytes.ofText ".lock"

variable {d d' : Disk} {root : OsPath} {dir : Place}

/-- What opening a cache may do to its root. -/
structure Taken (root : OsPath) (dir : Place) (d d' : Disk) : Prop where
  footing : d'.Footing root dir
  outside : d.AgreesOff dir d'
  entries : ∀ name, name ≠ fileName → Disk.Same (dir ++ [name]) d d'

theorem Taken.trans {d'' : Disk} (h : Taken root dir d d') (h' : Taken root dir d' d'') :
    Taken root dir d d'' :=
  ⟨h'.footing, h.outside.trans h'.outside, fun name hname =>
    (h.entries name hname).trans (h'.entries name hname)⟩

theorem Taken.of_file (hfooting : d'.Footing root dir)
    (hat : ∀ q, q ≠ dir ++ [fileName] → d'.at? q = d.at? q) : Taken root dir d d' := by
  refine ⟨hfooting, fun q hq => hat q ?_, fun name hname rest => hat _ ?_⟩
  · intro e
    exact hq (e ▸ Disk.inside_append dir (List.cons_ne_nil _ _))
  · intro e
    rw [← List.append_nil (dir ++ [fileName])] at e
    exact Disk.append_ne_of_ne hname rest [] e

theorem isName_fileName : OsPath.IsName fileName :=
  OsPath.isName_ofText (by decide) (by decide) (by decide) (by decide)

theorem footing_of_flat (hdir : d.dirAt root = .ok dir)
    (hflat : ∀ place, dir.Inside place → d.at? place = none ∨ place = dir ++ [fileName] ∧
      ∃ serial content, d.at? place = some (.file serial content)) : d.Footing root dir := by
  have hinside (rest : List Bytes) (name : Bytes) : dir.Inside (dir ++ (rest ++ [name])) :=
    Disk.inside_append _ (Disk.named_ne_nil _ _)
  refine ⟨Disk.anchored_of_flat hdir ?_, ?_, ?_, ?_⟩
  · intro place hplace
    rcases hflat place hplace with hnone | ⟨-, hfile⟩
    · exact .inl hnone
    · exact .inr hfile
  · intro place target hplace
    rcases hflat place hplace with hnone | ⟨-, serial, content, hfile⟩
    · rw [hnone]
      nofun
    · rw [hfile]
      nofun
  · intro rest name hsome
    rcases hflat _ (hinside rest name) with hnone | ⟨heq, -⟩
    · exact absurd hnone hsome
    · have heq : rest ++ [name] = [] ++ [fileName] := List.append_cancel_left heq
      obtain ⟨rfl, -⟩ := List.append_inj' heq rfl
      rw [List.append_nil]
      exact Disk.at?_of_dirAt hdir
  · intro name hsome
    rcases hflat _ (hinside [] name) with hnone | ⟨heq, -⟩
    · exact absurd hnone hsome
    · have heq : [name] = [fileName] := List.append_cancel_left heq
      rw [(List.cons.inj heq).1]
      exact isName_fileName

theorem pathIn_eq (root : OsPath) : pathIn root = OsPath.below root [fileName] :=
  OsPath.child_eq root ".lock"

theorem meets_openFile (h : d.Footing root dir) :
    (openFile (pathIn root)).Meets d fun _ d' => Taken root dir d d' := by
  unfold openFile
  rw [pathIn_eq]
  refine .ask_bind ?_ fun _ _ => .of_file h fun _ _ => rfl
  intro found hfound
  have hnames : ∀ n ∈ [fileName], OsPath.IsName n := List.forall_mem_singleton.2 isName_fileName
  obtain ⟨rfl, hparent⟩ := h.resolve_below hnames (List.cons_ne_nil _ _) hfound
  dsimp only
  split
  next => exact meets_pure (.of_file h fun _ _ => rfl)
  next => exact meets_throw (.of_file h fun _ _ => rfl)
  next hnone =>
    have hplace : dir ++ [fileName] ≠ [] := Disk.named_ne_nil _ _
    have hat := DiskOp.at?_apply_makeFile d hplace []
    refine .disk_bind (.change_bind (meets_pure (.of_file ?_ fun q hq => by rw [hat, if_neg hq])))
    refine h.put (List.cons_ne_nil _ _) hat (fun _ => nofun) hparent ?_ ?_
    · intro e
      cases hnone.symm.trans e
    · intro n e
      cases e
      exact isName_fileName

theorem sign_of_text {text : String} (h : root.text? = some text) (path : OsPath)
    (holder : LockHolder) : sign path root holder =
      mapError .openFile
        (Disk.writeFile path (Bytes.ofText (LockMetadata.text ⟨1, holder, text⟩))) := by
  unfold sign
  rw [h]

theorem meets_sign (h : d.Footing root dir) (holder : LockHolder) :
    (sign (pathIn root) root holder).Meets d fun _ d' => Taken root dir d d' := by
  have hnames : ∀ n ∈ [fileName], OsPath.IsName n := List.forall_mem_singleton.2 isName_fileName
  have hwrite (content : Bytes) :
      (Disk.writeFile (pathIn root) content).Meets d fun _ d' => Taken root dir d d' := by
    rw [pathIn_eq]
    refine (Disk.meets_writeFile h hnames (List.cons_ne_nil _ _) content).mono
      fun _ d' ⟨h', hwrote, _⟩ => .of_file h' ?_
    intro q hq
    rcases hwrote q with heq | ⟨heq, -⟩
    · exact heq
    · exact absurd heq hq
  unfold sign
  split
  next => exact (hwrite _).mapError.mono fun _ _ ⟨_, _, hd⟩ => hd
  next =>
    exact .bind (hwrite _).mapError (fun _ _ ⟨_, _, hd⟩ => meets_throw hd)
      fun _ _ ⟨_, _, hd⟩ => hd

/-- Taking the lock of a root changes nothing in it but the lock file. -/
theorem meets_acquire (h : d.Footing root dir) (holder : LockHolder) :
    (acquire root holder).Meets d fun _ d' => Taken root dir d d' := by
  have hstart : Taken root dir d d := .of_file h fun _ _ => rfl
  have hlock {d' : Disk} (serial : Nat) (hd : Taken root dir d d') :
      Taken root dir d (d'.lock serial) :=
    hd.trans (.of_file (hd.footing.congr fun _ => rfl) fun _ _ => rfl)
  refine .bind (Disk.meets_makeDirs_there h.dirAt_eq).mapError ?_
    fun _ d₁ ⟨_, _, _, heq⟩ => heq ▸ hstart
  intro _ d₁ ⟨_, _, _, heq⟩
  subst heq
  refine .bind (meets_openFile h).mapError ?_
    fun _ d₂ ⟨_, _, hd⟩ => hd
  intro serial d₂ ⟨_, _, hd⟩
  refine .disk_bind ?_
  dsimp only
  split
  · exact .disk_bind (meets_throw hd)
  · exact .bind (meets_sign hd.footing holder)
      (fun _ d₃ hd₃ =>
        .modify_bind (g := fun d => d.lock serial) (meets_pure (hlock serial (hd.trans hd₃))))
      fun _ d₃ hd₃ => hd.trans hd₃

end CacheLock

end Rebuild
