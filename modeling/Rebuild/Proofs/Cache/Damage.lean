import Rebuild.Proofs.Cache.Answers
import Rebuild.Proofs.Incremental.Recall
import Rebuild.Proofs.Json.Forms
import Rebuild.Proofs.Path.Reading

/-!
# Damaged entries

Whatever lies in the root of a cache, an entry is used only as far as it can be
read. A hit needs an index of just this builder and a fingerprint that agrees. What
is restored are the files that such an index lists, as they lie in the entry, and
the paths are normal ones, however the index spells them.

* `DiskCache.Lists`: an index that can be read, of whatever builder and version.
* `readIndex_eq_ok_iff`, `readIndex_of_foreign`: which of these count.
* `EntryIndex.of_ofText?`: the paths of an index are those that its texts spell.
* `DiskCache.intact_only`: what a cache makes of an entry.
-/
namespace Rebuild
open DiskM

/-! ## Paths of an index -/

namespace EntryIndex

/-- The paths that an index lists, as they are spelled. -/
def spellings? (s : String) : Option (List String) := do
  match ← (← Json.Tree.parse s).fields? ["version", "builder", "files"] with
  | [_, _, files] => files.items? Json.Tree.text?
  | _ => none

theorem spellings?_of_spelling? {s : String} {owner : Nat × BuilderId} {raws : List String}
    (h : Json.readText? spelling? s = some (owner, raws)) : spellings? s = some raws := by
  unfold Json.readText? spelling? at h
  obtain ⟨tree, htree, h⟩ := Option.bind_eq_some_iff.1 h
  obtain ⟨fields, hfields, h⟩ := Option.bind_eq_some_iff.1 h
  split at h
  next version builder files =>
    obtain ⟨_, -, h⟩ := Option.bind_eq_some_iff.1 h
    obtain ⟨_, -, h⟩ := Option.bind_eq_some_iff.1 h
    obtain ⟨_, hraws, h⟩ := Option.bind_eq_some_iff.1 h
    cases h
    unfold spellings?
    rw [htree, Option.bind_eq_bind, Option.bind_some, hfields]
    exact hraws
  next => cases h

/-- The files of an index are the paths that it spells, and all that it spells are paths. -/
theorem of_ofText? {s : String} {index : EntryIndex} (h : ofText? s = some index) :
    ∃ raws, spellings? s = some raws ∧
      (∀ p ∈ index.files, ∃ raw ∈ raws, RelativePath.Spells raw p) ∧
      ∀ raw ∈ raws, ∃ p ∈ index.files, RelativePath.parse raw = .ok p := by
  rw [ofText?_eq] at h
  obtain ⟨⟨owner, raws⟩, hspelling, h⟩ := Option.bind_eq_some_iff.1 h
  obtain ⟨files, hfiles, rfl⟩ := Option.map_eq_some_iff.1 h
  have hmem := RelativePath.mem_of_setOfTexts? hfiles
  refine ⟨raws, spellings?_of_spelling? hspelling, fun p hp => ?_, fun raw hraw => ?_⟩
  · obtain ⟨raw, hraw, hparse⟩ := (hmem p).1 hp
    exact ⟨raw, hraw, RelativePath.spells_of_parse hparse⟩
  · obtain ⟨p, hparse⟩ := RelativePath.exists_setOfTexts?_iff.1 ⟨files, hfiles⟩ raw hraw
    exact ⟨p, (hmem p).2 ⟨raw, hraw, hparse⟩, hparse⟩

end EntryIndex

namespace DiskCache

variable {ρ : Type} {c : DiskCache} {id : BuilderId} {d : Disk}

/-! ## Which entries count -/

/-- The entry of a builder has an index with this text. -/
def Spelled (c : DiskCache) (id : BuilderId) (d : Disk) (text : String) : Prop :=
  d.readText ((c.entryDir id).child "entry.json") = .ok text

/-- The entry of a builder has an index that can be read. It may be that of another builder. -/
def Lists (c : DiskCache) (id : BuilderId) (d : Disk) (index : EntryIndex) : Prop :=
  ∃ text, c.Spelled id d text ∧ EntryIndex.ofText? text = some index

theorem readIndex_of_spelled {text : String} (h : c.Spelled id d text) :
    c.readIndex id d = (EntryIndex.read id text).mapError (.corrupt id) := by
  unfold readIndex
  dsimp only
  rw [bind_ok (mapError_ok _ h)]

/-- Just an index of the builder, of the version that is written, counts. -/
theorem readIndex_eq_ok_iff {index : EntryIndex} : c.readIndex id d = .ok index ↔
    c.Lists id d index ∧ index.version = EntryIndex.currentVersion ∧ index.builder = id := by
  constructor
  · intro h
    obtain ⟨text, htext, hofText, hbuilder⟩ := of_readIndex h
    refine ⟨⟨text, htext, hofText⟩, ?_, hbuilder⟩
    have hread := ok_of_mapError ((readIndex_of_spelled htext).symm.trans h)
    unfold EntryIndex.read at hread
    rw [hofText] at hread
    dsimp only at hread
    split at hread
    · cases hread
    next hversion => exact Decidable.not_not.1 hversion
  · intro ⟨⟨text, htext, hofText⟩, hversion, hbuilder⟩
    rw [readIndex_of_spelled htext]
    refine mapError_ok _ ?_
    unfold EntryIndex.read
    rw [hofText]
    dsimp only
    rw [if_neg (not_not_intro hversion), if_neg (not_not_intro hbuilder)]

theorem readIndex_of_foreign {index : EntryIndex} (h : c.Lists id d index)
    (hversion : index.version = EntryIndex.currentVersion) (hbuilder : index.builder ≠ id) :
    c.readIndex id d = .error (.corrupt id (.foreign index.builder)) := by
  obtain ⟨text, htext, hofText⟩ := h
  rw [readIndex_of_spelled htext]
  unfold EntryIndex.read
  rw [hofText]
  dsimp only
  rw [if_neg (not_not_intro hversion), if_pos hbuilder]
  rfl

theorem answer_of_readIndex_error {e : CacheError} (h : c.readIndex id d = .error e)
    (fp : Fingerprint) : c.answer id fp d = false := by
  refine Bool.eq_false_iff.2 fun htrue => ?_
  obtain ⟨stored, hstored, -⟩ := answer_eq_true.1 htrue
  obtain ⟨⟨index, hindex⟩, -⟩ := of_readFingerprint hstored
  cases h.symm.trans hindex

/-! ## What is handed out -/

/-- What was handed out into the target before all was or something could not be read. -/
theorem of_copyOut {files : LocalDirectory} : ∀ (l : List RelativePath) (s : Site ρ),
    ∃ written, (copyOut Site.diskPart files id Site.directory l s).2 = s.overwritten written ∧
      (∀ e ∈ written, e.1 ∈ l ∧ files.read e.1 s.disk = .ok e.2) ∧
      ((copyOut Site.diskPart files id Site.directory l s).1 = .ok () → written.map Prod.fst = l)
  | [], s => ⟨[], rfl, fun _ he => (List.not_mem_nil he).elim, fun _ => rfl⟩
  | p :: rest, s => by
    have hpart : Site.diskPart.get s = s.disk := rfl
    rw [copyOut, hpart]
    cases hread : files.read p s.disk with
    | error e => exact ⟨[], rfl, fun _ he => (List.not_mem_nil he).elim, fun h => by cases h⟩
    | ok content =>
      obtain ⟨written, hworld, hfrom, hall⟩ :=
        @of_copyOut files rest (s.overwritten [(p, content)])
      refine ⟨(p, content) :: written, hworld, ?_, ?_⟩
      · refine List.forall_mem_cons.2 ⟨⟨List.mem_cons_self, hread⟩, fun e he => ?_⟩
        exact ⟨List.mem_cons_of_mem _ (hfrom e he).1, (hfrom e he).2⟩
      · intro hok
        rw [List.map_cons, hall hok]

theorem of_restored (c : DiskCache) (id : BuilderId) (t : Traced (Site ρ)) :
    ∃ written,
      ((cache Site.diskPart c).restore id Site.directory t).2.world =
        t.world.overwritten written ∧
      (∀ e ∈ written, ∃ index, c.readIndex id t.world.disk = .ok index ∧ e.1 ∈ index.files ∧
        (filesIn (c.entryDir id)).read e.1 t.world.disk = .ok e.2) ∧
      ∀ outputs, ((cache Site.diskPart c).restore id Site.directory t).1 = .ok outputs →
        written.map Prod.fst = outputs.toList := by
  have hpart : Site.diskPart.get t.world = t.world.disk := rfl
  unfold cache
  simp only [Action.bind_apply, Action.ask_apply, hpart]
  cases hindex : c.readIndex id t.world.disk with
  | error e => exact ⟨[], rfl, fun _ he => (List.not_mem_nil he).elim, nofun⟩
  | ok index =>
    obtain ⟨written, hworld, hfrom, hall⟩ :=
      @of_copyOut ρ id (filesIn (c.entryDir id)) index.files.toList t.world
    simp only [Action.bind_apply, Action.change_apply]
    generalize copyOut Site.diskPart (filesIn (c.entryDir id)) id Site.directory
      index.files.toList t.world = copied at hworld hall ⊢
    obtain ⟨result, s⟩ := copied
    have hfrom : ∀ e ∈ written, ∃ index', (.ok index : Except CacheError _) = .ok index' ∧
        e.1 ∈ index'.files ∧
        (filesIn (c.entryDir id)).read e.1 t.world.disk = .ok e.2 := fun e he =>
      ⟨index, rfl, (SortedSet.mem_toList _ _).1 (hfrom e he).1, (hfrom e he).2⟩
    cases result with
    | error e => exact ⟨written, hworld, hfrom, nofun⟩
    | ok =>
      refine ⟨written, hworld, hfrom, fun outputs heq => ?_⟩
      cases heq
      exact hall rfl

theorem get?_overwritten_of_keys {written : List (RelativePath × Bytes)} {outputs : Outputs}
    (hkeys : written.map Prod.fst = outputs.toList) (s : Site ρ) :
    (∀ e ∈ written, (s.overwritten written).target.files.get? e.1 = some e.2) ∧
      ∀ p, p ∉ outputs → (s.overwritten written).target.files.get? p = s.target.files.get? p := by
  have hascending : Assoc.Ascending written := by
    rw [SortedMap.ascending_iff, hkeys]
    exact (SortedMap.ascending_iff _).1 outputs.map.ascending
  have hget := get?_overwritten s ⟨written, hascending⟩
  refine ⟨fun e he => ?_, fun p hp => ?_⟩
  · have hfound := (SortedMap.mem_entries_iff ⟨written, hascending⟩ e.1 e.2).1 he
    rw [hget, hfound]
    rfl
  · have hnone : (SortedMap.mk written hascending).get? p = none := by
      refine Option.eq_none_iff_forall_ne_some.2 fun content hsome => hp ?_
      have hmem := (SortedMap.mem_entries_iff ⟨written, hascending⟩ p content).2 hsome
      rw [← SortedSet.mem_toList, ← hkeys]
      exact List.mem_map_of_mem (f := Prod.fst) hmem
    rw [hget, hnone]
    rfl

/-- A hit needs an index of just the builder, and a fingerprint that agrees. -/
theorem contains_iff (c : DiskCache) (id : BuilderId) (fp : Fingerprint) (t : Traced (Site ρ)) :
    ((cache Site.diskPart c).contains id fp t).1 = true ↔
      (∃ index, c.Lists id t.world.disk index ∧ index.version = EntryIndex.currentVersion ∧
        index.builder = id) ∧
      ∃ encoded stored,
        t.world.disk.read ((c.entryDir id).child "fingerprint.bin") = .ok encoded ∧
          c.registry.decode encoded = .ok stored ∧ stored.agrees fp = true := by
  rw [(contains_eq Site.diskPart c id fp t).1, answer_eq_true]
  constructor
  · intro ⟨stored, hstored, hagrees⟩
    obtain ⟨⟨index, hindex⟩, encoded, hread, hdecode⟩ := of_readFingerprint hstored
    exact ⟨⟨index, readIndex_eq_ok_iff.1 hindex⟩, encoded, stored, hread, hdecode, hagrees⟩
  · intro ⟨⟨index, hindex⟩, encoded, stored, hread, hdecode, hagrees⟩
    exact ⟨stored, readFingerprint_eq (readIndex_eq_ok_iff.2 hindex) hread hdecode, hagrees⟩

/-- What is restored are copies of the files that an index of just the builder lists. -/
theorem of_restore_eq_ok {outputs : Outputs} {t : Traced (Site ρ)}
    (hok : ((cache Site.diskPart c).restore id Site.directory t).1 = .ok outputs) :
    c.Lists id t.world.disk ⟨EntryIndex.currentVersion, id, outputs⟩ ∧
      (∀ p ∈ outputs, ∃ content,
        (filesIn (c.entryDir id)).read p t.world.disk = .ok content ∧
          ((cache Site.diskPart c).restore id Site.directory t).2.world.target.files.get? p =
            some content) ∧
      ∀ p, p ∉ outputs →
        ((cache Site.diskPart c).restore id Site.directory t).2.world.target.files.get? p =
          t.world.target.files.get? p := by
  obtain ⟨written, hworld, hfrom, hall⟩ := of_restored c id t
  obtain ⟨⟨version, builder, files⟩, hindex, hfiles, -⟩ := of_restore hok
  obtain ⟨hlists, hversion, hbuilder⟩ := readIndex_eq_ok_iff.1 hindex
  obtain ⟨hget, hothers⟩ := get?_overwritten_of_keys (hall outputs hok) t.world
  subst hversion hbuilder hfiles
  rw [hworld]
  refine ⟨hlists, fun p hp => ?_, hothers⟩
  rw [← SortedSet.mem_toList, ← hall _ hok] at hp
  obtain ⟨e, he, rfl⟩ := List.mem_map.1 hp
  obtain ⟨-, -, -, hread⟩ := hfrom e he
  exact ⟨e.2, hread, hget e he⟩

theorem restore_of_foreign {index : EntryIndex} {t : Traced (Site ρ)}
    (hlists : c.Lists id t.world.disk index) (hversion : index.version = EntryIndex.currentVersion)
    (hbuilder : index.builder ≠ id) (fp : Fingerprint) :
    ((cache Site.diskPart c).restore id Site.directory t).1 =
        .error (.corrupt id (.foreign index.builder)) ∧
      ((cache Site.diskPart c).contains id fp t).1 = false := by
  have hindex := readIndex_of_foreign hlists hversion hbuilder
  have hpart : Site.diskPart.get t.world = t.world.disk := rfl
  refine ⟨?_, (contains_eq Site.diskPart c id fp t).1.trans (answer_of_readIndex_error hindex fp)⟩
  unfold cache
  simp only [Action.bind_apply, Action.ask_apply, hpart, hindex]
  rfl

theorem restore_written (c : DiskCache) (id : BuilderId) (t : Traced (Site ρ)) :
    ∃ written,
      ((cache Site.diskPart c).restore id Site.directory t).2.world =
        t.world.overwritten written ∧
      ∀ e ∈ written, (filesIn (c.entryDir id)).read e.1 t.world.disk = .ok e.2 ∧
        (∀ s ∈ e.1.segments, IsSegment s) ∧
        ∃ text raws, c.Spelled id t.world.disk text ∧ EntryIndex.spellings? text = some raws ∧
          (∃ raw ∈ raws, RelativePath.Spells raw e.1) ∧
          ∀ raw ∈ raws, ∃ p, RelativePath.Spells raw p := by
  obtain ⟨written, hworld, hfrom, -⟩ := of_restored c id t
  refine ⟨written, hworld, fun e he => ?_⟩
  obtain ⟨index, hindex, hfile, hread⟩ := hfrom e he
  obtain ⟨⟨text, htext, hofText⟩, -, -⟩ := readIndex_eq_ok_iff.1 hindex
  obtain ⟨raws, hraws, hspells, hpaths⟩ := EntryIndex.of_ofText? hofText
  refine ⟨hread, e.1.plain, text, raws, htext, hraws, hspells e.1 hfile, fun raw hraw => ?_⟩
  obtain ⟨p, -, hparse⟩ := hpaths raw hraw
  exact ⟨p, RelativePath.spells_of_parse hparse⟩

/-- What a cache makes of an entry, whatever lies in its root. A hit needs an index of version 1 and
of just this builder, and a fingerprint that agrees. What is restored are copies of the files that
such an index lists, and nothing else in the target changes. The index of another builder is no hit,
and nothing is restored. All that is written lies at normal paths, which the index spells, and the
cache itself is left alone. -/
theorem intact_only (c : DiskCache) (id : BuilderId) (fp : Fingerprint) (t : Traced (Site ρ)) :
    let d := t.world.disk
    let asked := (cache Site.diskPart c).contains id fp t
    let restored := (cache Site.diskPart c).restore id Site.directory t
    (asked.1 = true ↔
      (∃ index, c.Lists id d index ∧ index.version = 1 ∧ index.builder = id) ∧
        ∃ encoded stored, d.read ((c.entryDir id).child "fingerprint.bin") = .ok encoded ∧
          c.registry.decode encoded = .ok stored ∧ stored.agrees fp = true) ∧
    (∀ outputs, restored.1 = .ok outputs →
      c.Lists id d ⟨1, id, outputs⟩ ∧
        (∀ p ∈ outputs, ∃ content, (filesIn (c.entryDir id)).read p d = .ok content ∧
          restored.2.world.target.files.get? p = some content) ∧
        ∀ p, p ∉ outputs →
          restored.2.world.target.files.get? p = t.world.target.files.get? p) ∧
    (∀ index, c.Lists id d index → index.version = 1 → index.builder ≠ id →
      restored.1 = .error (.corrupt id (.foreign index.builder)) ∧ asked.1 = false) ∧
    (∃ written, restored.2.world = t.world.overwritten written ∧
      ∀ e ∈ written, (filesIn (c.entryDir id)).read e.1 d = .ok e.2 ∧
        (∀ s ∈ e.1.segments, IsSegment s) ∧
        ∃ text raws, c.Spelled id d text ∧ EntryIndex.spellings? text = some raws ∧
          (∃ raw ∈ raws, RelativePath.Spells raw e.1) ∧
          ∀ raw ∈ raws, ∃ p, RelativePath.Spells raw p) ∧
    restored.2.world.disk = d ∧ asked.2.world = t.world := by
  obtain ⟨written, hworld, hwritten⟩ := restore_written c id t
  refine ⟨contains_iff c id fp t, fun outputs hok => of_restore_eq_ok hok,
    fun index hlists hversion hbuilder => restore_of_foreign hlists hversion hbuilder fp,
    ⟨written, hworld, hwritten⟩, ?_, (contains_eq Site.diskPart c id fp t).2⟩
  rw [hworld]
  rfl

end DiskCache

end Rebuild
