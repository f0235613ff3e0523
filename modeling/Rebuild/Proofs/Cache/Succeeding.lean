import Rebuild.Cache.Memory
import Rebuild.Proofs.Cache.Entry
import Rebuild.Proofs.Cache.OnDisk
import Rebuild.Proofs.Disk.Member
import Rebuild.Proofs.Fingerprint.RoundTrip

/-!
# Stores that succeed

A store succeeds if the outputs can be read and the paths of all that makes up the
entry are within the limits of the operating system. What was stored then reads
back.

* `DiskCache.Storable`: outputs that can be stored.
* `DiskCache.Filling`: a staging directory that has room for what is left.
* `DiskCache.meets_store_ok`, `DiskCache.meets_store_unread`: a store of such outputs.
* `Filed.readIndex_eq`, `Filed.readFingerprint_eq`, `Filed.read_eq`: what reads back.
-/
namespace Rebuild
open DiskM

theorem MemoryCache.readFiles_isOk {read : RelativePath → Except FsError Bytes} :
    ∀ {l : List RelativePath},
    (∀ p ∈ l, ∃ content, read p = .ok content) → ∃ files, MemoryCache.readFiles read l = .ok files
  | [], _ => ⟨[], rfl⟩
  | p :: rest, h => by
    obtain ⟨⟨content, hcontent⟩, hrest⟩ := List.forall_mem_cons.1 h
    obtain ⟨files, hfiles⟩ := MemoryCache.readFiles_isOk hrest
    refine ⟨(p, content) :: files, ?_⟩
    rw [MemoryCache.readFiles, bind_ok hcontent, bind_ok hfiles]
    rfl

namespace DiskCache

/-! ## What can be stored -/

/-- The directory in which an entry is put together if there is no other one of its kind. -/
def stagingName : Bytes := Disk.numbered ".staging-" 0

/-- The files and directories of an entry, seen from its directory. -/
def entryPlaces (outputs : Outputs) : List Place :=
  [filesName] :: [indexName] :: [fingerprintName] :: outputs.toList.map filePlace

/-- Outputs that can be stored: their segments are names that the operating system takes, none is a
directory of another one, and the paths in the staging directory and in the entry are not too long,
nor are those of the temporary files beside the outputs in the staging directory. -/
structure Storable (c : DiskCache) (id : BuilderId) (outputs : Outputs) : Prop where
  short : ∀ p ∈ outputs, ∀ s ∈ p.segments, (Bytes.ofText s).length ≤ Disk.nameLimit
  nulFree : ∀ p ∈ outputs, ∀ s ∈ p.segments, (0 : UInt8) ∉ Bytes.ofText s
  apart : ∀ p ∈ outputs, ∀ q ∈ outputs, p.segments <+: q.segments → p = q
  fits : ∀ name ∈ [stagingName, entryName id], ∀ place ∈ entryPlaces outputs,
    (OsPath.below c.root (name :: place)).length < Disk.pathLimit
  room : ∀ p ∈ outputs, (OsPath.below c.root (stagingName :: filePlace p).dropLast).length + 1 +
    Disk.temporaryLength < Disk.pathLimit

theorem accepted_stagingName : Disk.Accepted stagingName :=
  ⟨OsPath.isName_numbered (by decide) (by decide) 0, by decide, by decide⟩

theorem accepted_filesName : Disk.Accepted filesName := ⟨isName_filesName, by decide, by decide⟩

theorem accepted_indexName : Disk.Accepted indexName := ⟨isName_indexName, by decide, by decide⟩

theorem accepted_fingerprintName : Disk.Accepted fingerprintName :=
  ⟨isName_fingerprintName, by decide, by decide⟩

theorem length_entryName (id : BuilderId) : (entryName id).length = 20 :=
  OsPath.length_shortHash id.text

theorem accepted_entryName (id : BuilderId) : Disk.Accepted (entryName id) := by
  refine ⟨isName_entryName id, ?_, OsPath.not_mem_shortHash (by decide)⟩
  rw [length_entryName]
  decide

theorem stagingName_ne_entryName (id : BuilderId) : stagingName ≠ entryName id := by
  intro e
  have hdot : 0x2E ∈ stagingName := by decide
  exact OsPath.not_mem_shortHash (by decide) (e ▸ hdot)

theorem freshName_eq {d : Disk} {dir : Place} (h : d.at? (dir ++ [stagingName]) = none) :
    d.freshName dir ".staging-" = stagingName := by
  have hfirst : (List.range (d.items.size + 1)).find? (fun n =>
      d.at? (dir ++ [Disk.numbered ".staging-" n]) = none) = some 0 := by
    rw [List.range_succ_eq_map]
    exact List.find?_cons_of_pos (decide_eq_true h)
  unfold Disk.freshName
  rw [hfirst]
  rfl

section Limits

variable {c : DiskCache} {id : BuilderId} {outputs : Outputs} {name : Bytes} {place : Place}

theorem Storable.accepted_place (h : c.Storable id outputs) (hplace : place ∈ entryPlaces outputs) :
    ∀ name ∈ place, Disk.Accepted name := by
  have hsingle {name : Bytes} (hname : Disk.Accepted name) : ∀ n ∈ [name], Disk.Accepted n :=
    List.forall_mem_singleton.2 hname
  simp only [entryPlaces, List.mem_cons, List.mem_map] at hplace
  rcases hplace with rfl | rfl | rfl | ⟨p, hp, rfl⟩
  · exact hsingle accepted_filesName
  · exact hsingle accepted_indexName
  · exact hsingle accepted_fingerprintName
  · refine List.forall_mem_cons.2 ⟨accepted_filesName, ?_⟩
    intro name hname
    obtain ⟨s, hs, rfl⟩ := List.mem_map.1 hname
    have hp := (SortedSet.mem_toList _ _).1 hp
    exact ⟨OsPath.isName_segment (p.plain s hs), h.short p hp s hs, h.nulFree p hp s hs⟩

theorem Storable.withinLimits (h : c.Storable id outputs)
    (hname : name ∈ [stagingName, entryName id])
    (hplace : place ∈ entryPlaces outputs) : Disk.WithinLimits c.root (name :: place) := by
  refine ⟨List.forall_mem_cons.2 ⟨?_, h.accepted_place hplace⟩, h.fits name hname place hplace⟩
  simp only [List.mem_cons, List.not_mem_nil, or_false] at hname
  rcases hname with rfl | rfl
  · exact accepted_stagingName
  · exact accepted_entryName id

theorem files_mem_entryPlaces : [filesName] ∈ entryPlaces outputs := List.mem_cons_self

theorem index_mem_entryPlaces : [indexName] ∈ entryPlaces outputs :=
  List.mem_cons_of_mem _ List.mem_cons_self

theorem fingerprint_mem_entryPlaces : [fingerprintName] ∈ entryPlaces outputs :=
  List.mem_cons_of_mem _ (List.mem_cons_of_mem _ List.mem_cons_self)

theorem mem_entryPlaces {p : RelativePath} (hp : p ∈ outputs) :
    filePlace p ∈ entryPlaces outputs :=
  List.mem_cons_of_mem _ (List.mem_cons_of_mem _ (List.mem_cons_of_mem _
    (List.mem_map_of_mem ((SortedSet.mem_toList _ _).2 hp))))

/-- Outputs can be stored if a hundred bytes are left for the names that the cache adds. -/
theorem storable_of_room
    (hshort : ∀ p ∈ outputs, ∀ s ∈ p.segments, (Bytes.ofText s).length ≤ Disk.nameLimit)
    (hnulFree : ∀ p ∈ outputs, ∀ s ∈ p.segments, (0 : UInt8) ∉ Bytes.ofText s)
    (hapart : ∀ p ∈ outputs, ∀ q ∈ outputs, p.segments <+: q.segments → p = q)
    (hroot : c.root.length + 100 < Disk.pathLimit)
    (hroom : ∀ p ∈ outputs, c.root.length + 100 +
      ((p.segments.map Bytes.ofText).map (·.length + 1)).sum < Disk.pathLimit) :
    c.Storable id outputs := by
  have hentry := length_entryName id
  have hstaging : stagingName.length = 15 := by decide
  have hfiles : filesName.length = 5 := by decide
  have hindex : indexName.length = 10 := by decide
  have hfingerprint : fingerprintName.length = 15 := by decide
  have hbound {name : Bytes} (hname : name ∈ [stagingName, entryName id]) {place : Place}
      (hplain : ∀ n ∈ place, OsPath.IsName n) : (OsPath.below c.root (name :: place)).length ≤
        c.root.length + 21 + (place.map (·.length + 1)).sum := by
    simp only [List.mem_cons, List.not_mem_nil, or_false] at hname
    rcases hname with rfl | rfl
    · have := OsPath.length_below_le (List.forall_mem_cons.2
        ⟨accepted_stagingName.toIsName, hplain⟩) c.root
      rw [List.map_cons, List.sum_cons] at this
      omega
    · have := OsPath.length_below_le (List.forall_mem_cons.2 ⟨isName_entryName id, hplain⟩) c.root
      rw [List.map_cons, List.sum_cons] at this
      omega
  have hlength (p : RelativePath) : ((filePlace p).map (·.length + 1)).sum =
      6 + ((p.segments.map Bytes.ofText).map (·.length + 1)).sum := by
    rw [filePlace, List.map_cons, List.sum_cons, hfiles]
  refine ⟨hshort, hnulFree, hapart, ?_, ?_⟩
  · intro name hname place hplace
    simp only [entryPlaces, List.mem_cons, List.mem_map] at hplace
    rcases hplace with rfl | rfl | rfl | ⟨p, hp, rfl⟩
    · have := hbound hname (List.forall_mem_singleton.2 isName_filesName)
      rw [List.map_singleton, List.sum_singleton, hfiles] at this
      omega
    · have := hbound hname (List.forall_mem_singleton.2 isName_indexName)
      rw [List.map_singleton, List.sum_singleton, hindex] at this
      omega
    · have := hbound hname (List.forall_mem_singleton.2 isName_fingerprintName)
      rw [List.map_singleton, List.sum_singleton, hfingerprint] at this
      omega
    · have := hbound hname (isName_filePlace p)
      have hroom := hroom p ((SortedSet.mem_toList _ _).1 hp)
      rw [hlength] at this
      omega
  · intro p hp
    obtain ⟨dirs, last, hplace⟩ : ∃ dirs last, filePlace p = dirs ++ [last] :=
      ⟨_, _, (List.dropLast_concat_getLast (List.cons_ne_nil _ _)).symm⟩
    have hplain : ∀ n ∈ dirs ++ [last], OsPath.IsName n := hplace ▸ isName_filePlace p
    have := hbound List.mem_cons_self fun n hn => hplain n (List.mem_append_left _ hn)
    have hsum := hlength p
    rw [hplace, List.map_append, List.sum_append] at hsum
    rw [hplace, ← List.cons_append, List.dropLast_concat]
    have hroom := hroom p hp
    have htemporary : Disk.temporaryLength = 10 := rfl
    omega

end Limits

/-! ## Staging -/

section Staging

variable {c : DiskCache} {d d' : Disk} {dir : Place} {name : Bytes} {id : BuilderId}
  {encoded : Bytes} {outputs : Outputs} {read : RelativePath → Except FsError Bytes}

/-- Neither of two paths is the other one or a directory of it. -/
def Apart (p q : RelativePath) : Prop := ¬p.segments <+: q.segments ∧ ¬q.segments <+: p.segments

theorem segments_isPrefix {p q : RelativePath} (h : name :: filePlace p <+: name :: filePlace q) :
    p.segments <+: q.segments := by
  obtain ⟨rest, h⟩ := (List.cons_prefix_cons.1 (List.cons_prefix_cons.1 h).2).2
  exact (List.prefix_map_iff_of_injective fun _ _ => Bytes.ofText_injective).1 ⟨rest, h⟩

theorem Storable.pairwise_apart (h : c.Storable id outputs) : outputs.toList.Pairwise Apart := by
  refine outputs.pairwise_toList.imp_of_mem fun {p q} hp hq hne => ?_
  have hp := (SortedSet.mem_toList _ _).1 hp
  have hq := (SortedSet.mem_toList _ _).1 hq
  exact ⟨fun e => hne (h.apart p hp q hq e), fun e => hne (h.apart q hq p hp e).symm⟩

/-- A staging directory under way: there is room for the outputs that are left, and for the two
files that come after them. -/
structure Filling (root : OsPath) (dir : Place) (name : Bytes) (left : List RelativePath)
    (d : Disk) : Prop where
  footing : d.Footing root dir
  self : d.at? (dir ++ [name]) = some .dir
  beside : ∀ other, other ≠ filesName → d.at? (dir ++ [name, other]) = none
  clear : ∀ p ∈ left, Disk.Clear dir (name :: filePlace p).dropLast d
  free : ∀ p ∈ left, d.at? (dir ++ name :: filePlace p) ≠ some .dir

theorem Filling.written {p : RelativePath} {left : List RelativePath} {content : Bytes}
    (h : Filling c.root dir name (p :: left) d) (hfooting : d'.Footing c.root dir)
    (hwritten : Disk.Written dir (name :: filePlace p) content d d')
    (hapart : ∀ q ∈ left, Apart p q) : Filling c.root dir name left d' := by
  have hbelow : (name :: filePlace p).dropLast <+: name :: filePlace p := List.dropLast_prefix _
  have hdir : (name :: filePlace p).dropLast = name :: (filePlace p).dropLast :=
    List.dropLast_cons_of_ne_nil (List.cons_ne_nil _ _)
  refine ⟨hfooting, ?_, ?_, ?_, ?_⟩
  · refine hwritten.way [name] ?_
    rw [hdir]
    exact List.cons_prefix_cons.2 ⟨rfl, List.nil_prefix⟩
  · intro other hother
    have hnot : ¬[name, other] <+: name :: filePlace p := fun e =>
      hother (List.cons_prefix_cons.1 (List.cons_prefix_cons.1 e).2).1
    rcases hwritten.at?_cases [name, other] with ⟨hl, -⟩ | ⟨heq, -⟩ | ⟨-, hsame⟩
    · exact absurd (hl.trans hbelow) hnot
    · exact absurd (heq ▸ List.prefix_rfl) hnot
    · rw [hsame]
      exact h.beside other hother
  · intro q hq l hl
    rcases hwritten.at?_cases l with ⟨-, hdir⟩ | ⟨heq, -⟩ | ⟨-, hsame⟩
    · exact .inr hdir
    · refine absurd (segments_isPrefix (heq ▸ hl.trans (List.dropLast_prefix _))) (hapart q hq).1
    · rw [hsame]
      exact h.clear q (List.mem_cons_of_mem _ hq) l hl
  · intro q hq
    rcases hwritten.at?_cases (name :: filePlace q) with ⟨hl, -⟩ | ⟨heq, -⟩ | ⟨-, hsame⟩
    · exact absurd (segments_isPrefix (hl.trans hbelow)) (hapart q hq).2
    · exact absurd (segments_isPrefix ⟨[], by rw [List.append_nil, heq]⟩) (hapart q hq).2
    · rw [hsame]
      exact h.free q (List.mem_cons_of_mem _ hq)

/-- Something ends as reading the outputs in order does: it succeeds if all of them can be read, and
fails with the first one that cannot. -/
def EndsAsRead (id : BuilderId) (outputs : Outputs) (read : RelativePath → Except FsError Bytes)
    (result : Except CacheError Unit) : Prop :=
  (∃ files, MemoryCache.readFiles read outputs.toList = .ok files ∧ result = .ok ()) ∨
    ∃ e, MemoryCache.readFiles read outputs.toList = .error e ∧ result = .error (.artifact id e)

theorem EndsAsRead.eq_ok {result : Except CacheError Unit}
    (h : EndsAsRead id outputs read result) {files : List (RelativePath × Bytes)}
    (hread : MemoryCache.readFiles read outputs.toList = .ok files) : result = .ok () := by
  rcases h with ⟨-, -, hok⟩ | ⟨e, herror, -⟩
  · exact hok
  · cases hread.symm.trans herror

theorem EndsAsRead.eq_error {result : Except CacheError Unit}
    (h : EndsAsRead id outputs read result) {e : FsError}
    (hread : MemoryCache.readFiles read outputs.toList = .error e) :
    result = .error (.artifact id e) := by
  rcases h with ⟨files, hok, -⟩ | ⟨e', herror, heq⟩
  · cases hread.symm.trans hok
  · cases hread.symm.trans herror
    exact heq

/-- Writing the outputs fails just if one of them cannot be read. -/
theorem meets_outputs_ends (hout : c.Storable id outputs)
    (h : Filling c.root dir stagingName outputs.toList d) :
    (forIn outputs.toList PUnit.unit fun p _ => do
      let content ← ask fun _ => (read p).mapError (.artifact id)
      ((filesIn (OsPath.below c.root [stagingName])).write p content).mapError (.artifact id)
      pure (.yield ⟨⟩) : DiskM CacheError PUnit).Meets d fun result d' =>
        EndsAsRead id outputs read result ∧
          (result = .ok ⟨⟩ → Filling c.root dir stagingName [] d') := by
  -- all that were passed could be read, so what is left decides how it ends
  refine meets_forIn (fun left d' => (∀ p ∈ left, p ∈ outputs) ∧ left.Pairwise Apart ∧
    (∀ e, MemoryCache.readFiles read left = .error e →
      MemoryCache.readFiles read outputs.toList = .error e) ∧
    ((∃ files, MemoryCache.readFiles read left = .ok files) →
      ∃ files, MemoryCache.readFiles read outputs.toList = .ok files) ∧
    Filling c.root dir stagingName left d') ?_ ?_ _ _
    ⟨fun p hp => (SortedSet.mem_toList _ _).1 hp, hout.pairwise_apart, fun _ he => he,
      fun hok => hok, h⟩
  · intro p left d' ⟨hmem, hapart, herror, hok, hfilling⟩
    obtain ⟨hp, hleft⟩ := List.forall_mem_cons.1 hmem
    obtain ⟨hpapart, hrest⟩ := List.pairwise_cons.1 hapart
    rw [MemoryCache.readFiles] at herror hok
    have hparent : (filesIn (OsPath.below c.root [stagingName])).parentOf p =
        OsPath.below c.root (stagingName :: filePlace p).dropLast := by
      have hsegments : p.segments.map Bytes.ofText ≠ [] := fun e =>
        p.nonempty (List.map_eq_nil_iff.1 e)
      rw [filePlace, List.dropLast_cons_of_ne_nil (List.cons_ne_nil _ _),
        List.dropLast_cons_of_ne_nil hsegments]
      exact parentOf_eq (trimStays_filesIn _) p
    have hfile : p.under (filesIn (OsPath.below c.root [stagingName])).root =
        OsPath.below c.root (stagingName :: filePlace p) := RelativePath.under_eq p _
    have hwrite (content : Bytes) :
        ((filesIn (OsPath.below c.root [stagingName])).write p content).Meets d'
        fun result d'' => result = .ok () ∧ Filling c.root dir stagingName left d'' := by
      unfold LocalDirectory.write
      rw [hparent, hfile]
      refine (Disk.meets_replaceFile_ok hfilling.footing (by simp [filePlace])
        (hout.withinLimits List.mem_cons_self (mem_entryPlaces hp)) (hout.room p hp)
        (hfilling.clear p List.mem_cons_self)
        (hfilling.free p List.mem_cons_self) content).mapError.mono ?_
      intro _ d'' ⟨_, heq, hok, hfooting, hwritten⟩
      subst hok heq
      exact ⟨rfl, hfilling.written hfooting hwritten hpapart⟩
    refine .ask_bind ?_ ?_
    · intro content hcontent
      have hcontent := ok_of_mapError hcontent
      rw [bind_ok hcontent] at herror hok
      refine .bind (hwrite content).mapError ?_ fun e d'' ⟨_, heq, hok, _⟩ => by
        subst hok
        cases heq
      intro _ d'' ⟨_, heq, _, hfilling'⟩
      refine meets_pure (.inl ⟨rfl, hleft, hrest, fun e he => herror e ?_, ?_, hfilling'⟩)
      · rw [he]
        rfl
      · intro ⟨files, hfiles⟩
        refine hok ⟨(p, content) :: files, ?_⟩
        rw [hfiles]
        rfl
    · intro e he
      cases hcontent : read p with
      | ok content =>
        rw [hcontent] at he
        cases he
      | error cause =>
        rw [hcontent] at he herror
        cases he
        exact .inr ⟨_, rfl, .inr ⟨cause, herror cause rfl, rfl⟩, nofun⟩
  · intro d' ⟨_, _, _, hok, hfilling⟩
    obtain ⟨files, hfiles⟩ := hok ⟨[], rfl⟩
    exact ⟨.inl ⟨files, hfiles, rfl⟩, fun _ => hfilling⟩

/-- A new staging directory has room for everything once the directory for the outputs is there. -/
theorem filling_of_laid (h : d.Footing c.root dir)
    (hfresh : ∀ place, Place.Inside (dir ++ [name]) place → d.at? place = none)
    (hlaid : Disk.Laid dir [name, filesName] d d') (hname : OsPath.IsName name) :
    Filling c.root dir name outputs.toList d' := by
  have hnone (next : Bytes) (l : List Bytes) : d.at? (dir ++ name :: next :: l) = none :=
    hfresh _ ⟨next, l, List.append_cons dir name _⟩
  have hnames : ∀ n ∈ [name, filesName], OsPath.IsName n :=
    List.forall_mem_cons.2 ⟨hname, List.forall_mem_singleton.2 isName_filesName⟩
  refine ⟨hlaid.footing h hnames, hlaid.way [name] ⟨[filesName], rfl⟩, ?_, ?_, ?_⟩
  · intro other hother
    rcases hlaid.at?_cases [name, other] with ⟨hl, -⟩ | ⟨-, hsame⟩
    · exact absurd (List.cons_prefix_cons.1 (List.cons_prefix_cons.1 hl).2).1 hother
    · rw [hsame]
      exact hnone other []
  · intro p _ l hl
    rcases hlaid.at?_cases l with ⟨-, hdir⟩ | ⟨hnot, hsame⟩
    · exact .inr hdir
    · match l, hl with
      | [], _ => exact absurd List.nil_prefix hnot
      | [first], hl =>
        rw [(List.cons_prefix_cons.1 (hl.trans (List.dropLast_prefix _))).1] at hnot
        exact absurd ⟨[filesName], rfl⟩ hnot
      | first :: next :: rest, hl =>
        rw [hsame, (List.cons_prefix_cons.1 (hl.trans (List.dropLast_prefix _))).1]
        exact .inl (hnone next rest)
  · intro p _
    rcases hlaid.at?_cases (name :: filePlace p) with ⟨hl, -⟩ | ⟨-, hsame⟩
    · have hlength := hl.length_le
      have hsegments := List.length_pos_iff.2 p.nonempty
      simp only [filePlace, List.length_cons, List.length_map, List.length_nil] at hlength
      omega
    · rw [hsame, filePlace, hnone]
      nofun

theorem meets_put_ok {file : String} (h : d.Footing c.root dir)
    (hlimits : Disk.WithinLimits c.root [name, Bytes.ofText file])
    (hself : d.at? (dir ++ [name]) = some .dir)
    (hfree : d.at? (dir ++ [name, Bytes.ofText file]) = none) (content : Bytes) :
    (Disk.writeFile ((OsPath.below c.root [name]).child file) content).Meets d fun result d' =>
      result = .ok () ∧ d'.Footing c.root dir ∧
        ∀ q, q ≠ dir ++ [name, Bytes.ofText file] → d'.at? q = d.at? q := by
  rw [OsPath.child_eq, OsPath.below_below]
  exact Disk.meets_writeFile_free h (List.cons_ne_nil _ _) hlimits hself hfree content

/-- Staging an entry in a new directory fails just if an output cannot be read. -/
theorem meets_stage_ends (h : d.Footing c.root dir) (hout : c.Storable id outputs)
    (hself : d.at? (dir ++ [stagingName]) = some .dir)
    (hfresh : ∀ place, Place.Inside (dir ++ [stagingName]) place → d.at? place = none) :
    (stage (OsPath.below c.root [stagingName]) id encoded outputs read).Meets d
      fun result _ => EndsAsRead id outputs read result := by
  have hname : stagingName ∈ [stagingName, entryName id] := List.mem_cons_self
  have hlimits {place : Place} (hplace : place ∈ entryPlaces outputs) :
      Disk.WithinLimits c.root (stagingName :: place) := hout.withinLimits hname hplace
  have hclear : Disk.Clear dir [stagingName, filesName] d := by
    intro l hl
    match l, hl with
    | [], _ => exact .inr (by rw [List.append_nil, h.at?_dir])
    | [first], hl => exact .inr ((List.cons_prefix_cons.1 hl).1 ▸ hself)
    | first :: next :: rest, hl =>
      refine .inl (hfresh _ ⟨next, rest, ?_⟩)
      rw [(List.cons_prefix_cons.1 hl).1]
      exact List.append_cons dir _ _
  refine .bind (Disk.meets_makeDirs_ok h (List.cons_ne_nil _ _)
    (hlimits files_mem_entryPlaces) hclear).mapError ?_ ?_
  · intro _ d₁ ⟨_, _, _, hlaid⟩
    refine .bind (meets_outputs_ends hout
      (filling_of_laid h hfresh hlaid accepted_stagingName.toIsName)) ?_
      fun e d₂ ⟨hends, _⟩ => hends
    intro _ d₂ ⟨hends, hfilled⟩
    have hfilling := hfilled rfl
    refine .bind (meets_put_ok hfilling.footing (hlimits index_mem_entryPlaces) hfilling.self
      (hfilling.beside _ (by decide)) _).mapError ?_ ?_
    · intro _ d₃ ⟨_, _, _, hfooting, hsame⟩
      have hself₃ : d₃.at? (dir ++ [stagingName]) = some .dir := by
        rw [hsame _ fun e => ?_]
        · exact hfilling.self
        · exact List.cons_ne_nil _ _ (List.cons.inj (List.append_cancel_left e)).2.symm
      refine (meets_put_ok hfooting (hlimits fingerprint_mem_entryPlaces) hself₃ ?_
        _).mapError.mono ?_
      · rw [hsame _ fun e => ?_]
        · exact hfilling.beside _ (by decide)
        · exact absurd (List.append_cancel_left e) (by decide)
      · intro _ _ ⟨_, heq, hok, _⟩
        subst hok heq
        exact hends
    · intro e d₃ ⟨_, heq, hok, _⟩
      subst hok
      cases heq
  · intro e d₁ ⟨_, heq, hok, _⟩
    subst hok
    cases heq

end Staging

/-! ## Storing -/

section Storing

variable {c : DiskCache} {d : Disk} {dir : Place} {id : BuilderId} {fp : Fingerprint}
  {encoded : Bytes} {outputs : Outputs} {read : RelativePath → Except FsError Bytes}

theorem at?_root_entry (h : d.Footing c.root dir) (id : BuilderId) :
    d.at? (dir ++ [entryName id].dropLast) = some .dir := by
  rw [List.dropLast_singleton, List.append_nil, h.at?_dir]

theorem Storable.withinLimits_entry (hout : c.Storable id outputs) :
    Disk.WithinLimits c.root [entryName id] :=
  (hout.withinLimits (List.mem_cons_of_mem _ List.mem_cons_self) files_mem_entryPlaces).of_isPrefix
    ⟨[filesName], rfl⟩

theorem Storable.withinLimits_staging (hout : c.Storable id outputs) :
    Disk.WithinLimits c.root [stagingName] :=
  (hout.withinLimits List.mem_cons_self files_mem_entryPlaces).of_isPrefix ⟨[filesName], rfl⟩

theorem meets_move_ok (h : d.Footing c.root dir) (hout : c.Storable id outputs)
    (hstaged : d.at? (dir ++ [stagingName]) = some .dir)
    (hnone : d.at? (dir ++ [entryName id]) = none) :
    (Disk.rename (dir ++ [stagingName]) (OsPath.below c.root [entryName id])).Meets d
      fun result d' => result = .ok () ∧ Disk.Gone (dir ++ [stagingName]) d' := by
  have hvacant : Disk.Vacant dir [entryName id] .dir d :=
    ⟨at?_root_entry h id, fun _ => rfl, fun _ hplace =>
      h.at?_eq_none (by rw [hnone]; nofun) hplace⟩
  refine (Disk.meets_rename_ok h (List.cons_ne_nil _ _) hout.withinLimits_entry hstaged hvacant
    fun _ => .inl hnone).mono ?_
  intro result d' ⟨hok, heq⟩
  refine ⟨hok, fun rest => ?_⟩
  have hplace : dir ++ [stagingName] ≠ [] := Disk.named_ne_nil _ _
  rw [heq, DiskOp.at?_apply_move_elsewhere _ hplace
    (Disk.not_below_other (stagingName_ne_entryName id) rest), if_pos (List.prefix_append _ _)]

/-- The place of an entry, where there is one or nothing. -/
def Replaceable (dir : Place) (id : BuilderId) (d : Disk) : Prop :=
  d.at? (dir ++ [entryName id]) = none ∨ d.at? (dir ++ [entryName id]) = some .dir

theorem meets_install_ok (h : d.Footing c.root dir) (hout : c.Storable id outputs)
    (hstaged : d.at? (dir ++ [stagingName]) = some .dir) (hentry : Replaceable dir id d) :
    (install (dir ++ [stagingName]) (OsPath.below c.root [entryName id])).Meets d
      fun result d' => result = .ok () ∧ Disk.Gone (dir ++ [stagingName]) d' := by
  have hsingle : [entryName id] ≠ [] := List.cons_ne_nil _ _
  unfold install
  refine .disk_bind ?_
  dsimp only
  rw [h.present_eq hsingle hout.withinLimits_entry (at?_root_entry h id)]
  rcases hentry with hnone | hdir
  · rw [hnone, if_neg nofun]
    refine (meets_move_ok h hout hstaged hnone).mapError.mono ?_
    intro _ d' ⟨_, heq, hok, hgone⟩
    subst hok heq
    exact ⟨rfl, hgone⟩
  · rw [hdir, if_pos Option.isSome_some]
    refine .bind (Disk.meets_removeTree_ok h hsingle hout.withinLimits_entry hdir).mapError ?_ ?_
    · intro _ d₁ ⟨_, _, _, hpruned⟩
      have hstaged₁ : d₁.at? (dir ++ [stagingName]) = some .dir := by
        have hsame := hpruned.same (stagingName_ne_entryName id) []
        rwa [List.append_nil, hstaged] at hsame
      have hnone : d₁.at? (dir ++ [entryName id]) = none := by
        rw [hpruned, if_pos List.prefix_rfl]
      refine (meets_move_ok (h.pruned hsingle hpruned) hout hstaged₁ hnone).mapError.mono ?_
      intro _ d' ⟨_, heq, hok, hgone⟩
      subst hok heq
      exact ⟨rfl, hgone⟩
    · intro e d₁ ⟨_, heq, hok, _⟩
      subst hok
      cases heq

theorem meets_file_ok (h : d.Footing c.root dir) (hout : c.Storable id outputs)
    (hread : ∀ p ∈ outputs, ∃ content, read p = .ok content)
    (hself : d.at? (dir ++ [stagingName]) = some .dir)
    (hfresh : ∀ place, Place.Inside (dir ++ [stagingName]) place → d.at? place = none)
    (hentry : Replaceable dir id d) :
    (do
      stage (OsPath.below c.root [stagingName]) id encoded outputs read
      install (dir ++ [stagingName]) (OsPath.below c.root [entryName id]) :
      DiskM CacheError Unit).Meets d fun result d' =>
        result = .ok () ∧ d'.Footing c.root dir ∧ Disk.Gone (dir ++ [stagingName]) d' ∧
          Filed d' (dir ++ [entryName id]) id encoded outputs read := by
  have hne := stagingName_ne_entryName id
  obtain ⟨files, hfiles⟩ := MemoryCache.readFiles_isOk fun p hp =>
    hread p ((SortedSet.mem_toList _ _).1 hp)
  refine .bind ((meets_stage h accepted_stagingName.toIsName hself).and
    (meets_stage_ends h hout hself hfresh)) ?_ fun e d₁ ⟨_, hends⟩ => nomatch hends.eq_ok hfiles
  intro _ d₁ ⟨⟨hwithin, hfiled⟩, _⟩
  have hfiled := hfiled rfl
  have hself₁ := hwithin.at?_dir hself
  have hentry₁ : Replaceable dir id d₁ := by
    have hout : ¬Place.Inside (dir ++ [stagingName]) (dir ++ [entryName id] ++ []) :=
      Disk.not_inside_other hne.symm []
    rw [List.append_nil] at hout
    unfold Replaceable
    rwa [hwithin.outside _ hout]
  refine ((meets_install hwithin.footing hself₁ (isName_entryName id) hne).and
    (meets_install_ok hwithin.footing hout hself₁ hentry₁)).mono ?_
  intro result d₂ ⟨hinstalled, hok, hgone⟩
  refine ⟨hok, hinstalled.footing, hgone, ?_⟩
  rcases hinstalled.entry with ⟨-, hmoved⟩ | ⟨⟨e, heq⟩, -⟩
  · exact hfiled.congr hmoved
  · cases hok.symm.trans heq

/-- A store makes a new staging directory, and all else is done from there. -/
theorem meets_store_staging {post : Except CacheError Unit → Disk → Prop}
    (hdir : d.dirAt c.root = .ok dir) (hlimits : Disk.WithinLimits c.root [stagingName])
    (hstaging : Disk.Gone (dir ++ [stagingName]) d) (hencode : fp.encode = .ok encoded)
    (hfiling : (tryCatch
      (do
        stage (OsPath.below c.root [stagingName]) id encoded outputs read
        install (dir ++ [stagingName]) (c.entryDir id))
      fun e => do
        ignore (Disk.removeTree (OsPath.below c.root [stagingName]))
        throw e : DiskM CacheError Unit).Meets
          ((DiskOp.makeDir (dir ++ [stagingName])).apply d) post) :
    (c.store id fp outputs read).Meets d post := by
  have hfree : d.at? (dir ++ [stagingName]) = none := by
    have hself := hstaging []
    rwa [List.append_nil] at hself
  have hresolve := (Disk.resolve_name_iff hdir accepted_stagingName.toIsName).2 ⟨hlimits, rfl⟩
  refine .ask_bind ?_ fun e he => by rw [hencode] at he; cases he
  intro encoded' hencoded'
  cases hencode.symm.trans (ok_of_mapError hencoded')
  refine .ask_bind ?_ fun e he => by rw [hdir] at he; cases he
  intro place hplace
  cases hdir.symm.trans (ok_of_mapError hplace)
  refine .disk_bind ?_
  rw [freshName_eq hfree, OsPath.push_eq]
  refine .ask_bind ?_ fun e he => by rw [hresolve] at he; cases he
  intro made hmade
  cases hresolve.symm.trans (ok_of_mapError hmade)
  exact .change_bind hfiling

theorem meets_store_of_filing {post : Except CacheError Unit → Disk → Prop}
    (h : d.Footing c.root dir) (hout : c.Storable id outputs)
    (hstaging : Disk.Gone (dir ++ [stagingName]) d) (hencode : fp.encode = .ok encoded)
    (hfiling : ∀ d₁, d₁.Footing c.root dir →
      (∀ other, other ≠ stagingName → Disk.Same (dir ++ [other]) d d₁) →
      d₁.at? (dir ++ [stagingName]) = some .dir →
      (∀ place, Place.Inside (dir ++ [stagingName]) place → d₁.at? place = none) →
      (tryCatch
        (do
          stage (OsPath.below c.root [stagingName]) id encoded outputs read
          install (dir ++ [stagingName]) (OsPath.below c.root [entryName id]))
        fun e => do
          ignore (Disk.removeTree (OsPath.below c.root [stagingName]))
          throw e : DiskM CacheError Unit).Meets d₁ post) :
    (c.store id fp outputs read).Meets d post := by
  have hat := DiskOp.at?_apply_makeDir d
    (Disk.named_ne_nil dir stagingName)
  obtain ⟨h₁, -, hsame₁, hself⟩ := makeDir_staging h accepted_stagingName.toIsName rfl
  refine meets_store_staging h.dirAt_eq hout.withinLimits_staging hstaging hencode ?_
  rw [entryDir_eq]
  refine hfiling _ h₁ hsame₁ hself ?_
  intro place hplace
  obtain ⟨first, rest, rfl⟩ := hplace
  rw [hat, if_neg fun e => List.cons_ne_nil _ _ (List.append_right_eq_self.1 e)]
  exact hstaging (first :: rest)

/-- Storing outputs that can be stored and read succeeds, and then they are in place. -/
theorem meets_store_ok (h : d.Footing c.root dir) (hout : c.Storable id outputs)
    (hstaging : Disk.Gone (dir ++ [stagingName]) d) (hentry : Replaceable dir id d)
    (hencode : fp.encode = .ok encoded) (hread : ∀ p ∈ outputs, ∃ content, read p = .ok content) :
    (c.store id fp outputs read).Meets d fun result d' =>
      result = .ok () ∧ d'.Footing c.root dir ∧ Disk.Gone (dir ++ [stagingName]) d' ∧
        Filed d' (dir ++ [entryName id]) id encoded outputs read := by
  refine meets_store_of_filing h hout hstaging hencode fun d₁ h₁ hsame₁ hself hfresh => ?_
  have hentry₁ : Replaceable dir id d₁ := by
    have hsame := hsame₁ (entryName id) (stagingName_ne_entryName id).symm []
    rw [List.append_nil] at hsame
    unfold Replaceable
    rwa [hsame]
  exact .tryCatch (meets_file_ok h₁ hout hread hself hfresh hentry₁) (fun _ _ hd => hd)
    fun _ _ hd => nomatch hd.1

/-- Storing outputs that can be stored but not read fails with the first that cannot be read, and
leaves everything as it was. -/
theorem meets_store_unread (h : d.Footing c.root dir) (hout : c.Storable id outputs)
    (hstaging : Disk.Gone (dir ++ [stagingName]) d) (hencode : fp.encode = .ok encoded)
    {e : FsError} (hread : MemoryCache.readFiles read outputs.toList = .error e) :
    (c.store id fp outputs read).Meets d fun result d' =>
      result = .error (.artifact id e) ∧ d'.Footing c.root dir ∧
        Disk.Gone (dir ++ [stagingName]) d' ∧
        ∀ other, other ≠ stagingName → Disk.Same (dir ++ [other]) d d' := by
  refine meets_store_of_filing h hout hstaging hencode fun d₁ h₁ hsame₁ hself hfresh => ?_
  have hstaged : (do
      stage (OsPath.below c.root [stagingName]) id encoded outputs read
      install (dir ++ [stagingName]) (OsPath.below c.root [entryName id]) :
      DiskM CacheError Unit).Meets d₁ fun result d₂ =>
        result = .error (.artifact id e) ∧ Within c.root dir stagingName d₁ d₂ := by
    refine .bind ((meets_stage h₁ accepted_stagingName.toIsName hself).and
      (meets_stage_ends h₁ hout hself hfresh)) ?_ ?_
    · intro _ d₂ ⟨_, hends⟩
      cases hends.eq_error hread
    · intro cause d₂ ⟨⟨hwithin, _⟩, hends⟩
      exact ⟨hends.eq_error hread, hwithin⟩
  refine .tryCatch hstaged (fun _ _ hd => nomatch hd.1) ?_
  intro cause d₂ ⟨hcause, hwithin⟩
  cases hcause
  have hsingle : [stagingName] ≠ [] := List.cons_ne_nil _ _
  refine .ignore_bind (Disk.meets_removeTree_ok hwithin.footing hsingle hout.withinLimits_staging
    (hwithin.at?_dir hself)) fun _ d₃ ⟨_, hpruned⟩ => meets_throw ?_
  refine ⟨rfl, hwithin.footing.pruned hsingle hpruned, hpruned.gone, fun other hother => ?_⟩
  have hsame₂ : Disk.Same (dir ++ [other]) d₁ d₂ := fun rest =>
    hwithin.outside _ (Disk.not_inside_other hother rest)
  exact ((hsame₁ other hother).trans hsame₂).trans (hpruned.same hother)

end Storing

/-! ## Reading back -/

section Reading

variable {c : DiskCache} {d : Disk} {dir : Place} {id : BuilderId} {encoded : Bytes}
  {outputs : Outputs} {read : RelativePath → Except FsError Bytes}

theorem read_entry (h : d.Footing c.root dir) (hout : c.Storable id outputs) {place : Place}
    (hplace : place ∈ entryPlaces outputs) {serial : Nat} {content : Bytes}
    (hfile : d.at? (dir ++ [entryName id] ++ place) = some (.file serial content)) :
    d.read (OsPath.below c.root (entryName id :: place)) = .ok content := by
  rw [← List.append_cons] at hfile
  exact h.read_eq (hout.withinLimits (List.mem_cons_of_mem _ List.mem_cons_self) hplace)
    (List.cons_ne_nil _ _) hfile

theorem readText_of_read {path : OsPath} {content : Bytes} {text : String}
    (h : d.read path = .ok content) (htext : content.text? = some text) :
    d.readText path = .ok text := by
  unfold Disk.readText
  rw [bind_ok h, htext]
  rfl

theorem readText_eq {path : OsPath} {text : String} (h : d.read path = .ok (Bytes.ofText text)) :
    d.readText path = .ok text :=
  readText_of_read h (Bytes.text?_ofText text)

theorem read_text {index : EntryIndex} (h : index.version = EntryIndex.currentVersion) :
    EntryIndex.read index.builder index.text = .ok index := by
  have hversion : index.version < Nat.pow 2 32 := by
    rw [h]
    decide
  unfold EntryIndex.read
  simp only [EntryIndex.ofText?_text hversion, h, ne_eq, not_true_eq_false, if_false]

theorem readIndex_eq {index : EntryIndex} (h : index.version = EntryIndex.currentVersion)
    (hread : d.read ((c.entryDir index.builder).child "entry.json") =
      .ok (Bytes.ofText index.text)) : c.readIndex index.builder d = .ok index := by
  unfold readIndex
  dsimp only
  rw [bind_ok (mapError_ok _ (readText_eq hread))]
  exact mapError_ok _ (read_text h)

theorem readFingerprint_eq {index : EntryIndex} {fp : Fingerprint}
    (hindex : c.readIndex id d = .ok index)
    (hread : d.read ((c.entryDir id).child "fingerprint.bin") = .ok encoded)
    (hdecode : c.registry.decode encoded = .ok fp) : c.readFingerprint id d = .ok fp := by
  have hdiscard : discard (c.readIndex id d) = .ok () := by
    rw [hindex]
    rfl
  unfold readFingerprint
  dsimp only
  rw [bind_ok hdiscard, bind_ok (mapError_ok _ hread)]
  exact mapError_ok _ hdecode

theorem Filed.readIndex_eq (hfiled : Filed d (dir ++ [entryName id]) id encoded outputs read)
    (h : d.Footing c.root dir) (hout : c.Storable id outputs) :
    c.readIndex id d = .ok ⟨EntryIndex.currentVersion, id, outputs⟩ := by
  obtain ⟨serial, hindex⟩ := hfiled.index
  have hread := read_entry h hout index_mem_entryPlaces hindex
  refine @DiskCache.readIndex_eq c d ⟨EntryIndex.currentVersion, id, outputs⟩ rfl ?_
  rw [entryFile_eq]
  exact hread

theorem Filed.readFingerprint_eq {fp : Fingerprint}
    (hfiled : Filed d (dir ++ [entryName id]) id encoded outputs read)
    (h : d.Footing c.root dir) (hout : c.Storable id outputs)
    (hdecode : c.registry.decode encoded = .ok fp) : c.readFingerprint id d = .ok fp := by
  obtain ⟨serial, hfingerprint⟩ := hfiled.fingerprint
  have hread := read_entry h hout fingerprint_mem_entryPlaces hfingerprint
  refine DiskCache.readFingerprint_eq (hfiled.readIndex_eq h hout) ?_ hdecode
  rw [entryFile_eq]
  exact hread

theorem Filed.read_eq (hfiled : Filed d (dir ++ [entryName id]) id encoded outputs read)
    (h : d.Footing c.root dir) (hout : c.Storable id outputs) {p : RelativePath}
    (hp : p ∈ outputs) : (filesIn (c.entryDir id)).read p d = read p := by
  obtain ⟨serial, content, hcontent, hfile⟩ := hfiled.files p hp
  have hread := read_entry h hout (mem_entryPlaces hp) hfile
  unfold LocalDirectory.read
  rw [under_filesIn, hread, hcontent]
  rfl

end Reading

end DiskCache

end Rebuild
