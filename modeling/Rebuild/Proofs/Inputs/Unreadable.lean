import Mathlib.Data.List.Sort
import Rebuild.Proofs.Digest.Streaming
import Rebuild.Proofs.Inputs.Change
import Rebuild.Proofs.Path.Segments
import Rebuild.Session.Inputs

/-!
# Inputs that cannot be read

A survey of inputs goes through the leaves of the tree from left to right and stops at the first
that cannot be read. At a set of files that is the first file in the order of the bytes that counts
and that cannot be opened or breaks off on the way; files that are ignored are not even opened. A
survey changes nothing but the log.

* `Opening`: files as readers, that may fail before the first piece or after some.
* `leaves`: what a tree consists of, in order.
* `Readable`, `FailsWith`: what a leaf gives, from the files that count.
* `errorOf_survey`: the error of a tree is the first of its leaves.
* `fingerprint_first_failure`: when a fingerprint can be taken, and the error otherwise.
-/
namespace Rebuild

theorem SortedSet.pairwise_bytes (s : SortedSet RelativePath) :
    s.toList.Pairwise fun p q => Bytes.ofText p.text < Bytes.ofText q.text := by
  have hkeys : s.toList.Pairwise fun p q => compare p q = .lt := List.pairwise_map.2 s.map.ascending
  exact hkeys.imp fun hlt => Bytes.ofText_lt (compareOfLessAndEq_eq_lt.1 hlt)

namespace Inputs
open ContentHash

variable {σ : Type}

/-! ## Files as readers -/

/-- How the files of directories are opened: what the calls on the reader of a file give. -/
abbrev Opening (σ : Type) := Directory σ → RelativePath → σ → Except FsError (Reads OsError)

namespace Opening

/-- Opens a file and reads it to its end. -/
def read (opening : Opening σ) (dir : Directory σ) (p : RelativePath) (s : σ) :
    Except FsError Bytes := do
  (contents (← opening dir p s)).mapError (.io p)

/-- Opens a file and hashes what its reader yields. -/
def hash (opening : Opening σ) (dir : Directory σ) (p : RelativePath) (s : σ) :
    Except FsError ContentHash := do
  (ofReads (← opening dir p s)).mapError (.io p)

/-- The contents of a file are what its reader yields, in pieces that fit the buffer. -/
structure Gives (opening : Opening σ) (dir : Directory σ) (s : σ) : Prop where
  read_eq : ∀ p, dir.read p s = opening.read dir p s
  fits : ∀ p reads, opening dir p s = .ok reads → Fits reads

/-- A file can be opened, and its reader does not fail before its end. -/
def CanRead (opening : Opening σ) (dir : Directory σ) (s : σ) (p : RelativePath) : Prop :=
  ∃ reads content, opening dir p s = .ok reads ∧ contents reads = .ok content

variable {opening : Opening σ} {dir : Directory σ} {s : σ} {p : RelativePath}

/-- Hashing on the way is hashing the contents, and fails alike. -/
theorem Gives.hash_eq (h : opening.Gives dir s) (p : RelativePath) :
    opening.hash dir p s = ofBytes <$> dir.read p s := by
  rw [h.read_eq, hash, read]
  cases ho : opening dir p s with
  | error e => rfl
  | ok reads =>
    show (ofReads reads).mapError _ = ofBytes <$> (contents reads).mapError _
    rw [ofReads_eq (h.fits p reads ho)]
    cases contents reads <;> rfl

theorem Gives.canRead_iff (h : opening.Gives dir s) :
    opening.CanRead dir s p ↔ errorOf (dir.read p s) = none := by
  rw [h.read_eq, read, errorOf_eq_none_iff, CanRead]
  cases opening dir p s with
  | error e => simp [bind, Except.bind]
  | ok reads => cases hr : contents reads <;> simp [bind, Except.bind, Except.mapError, hr]

theorem Gives.hash_eq_error_iff (h : opening.Gives dir s) {e : FsError} :
    opening.hash dir p s = .error e ↔ errorOf (dir.read p s) = some e := by
  rw [← errorOf_eq_some_iff, h.hash_eq, errorOf_map]

end Opening

/-- Any directory may be read so: the whole buffer at each call. -/
def Opening.ofRead : Opening σ := fun dir p s =>
  readsOf bufferSize none .missing <$> dir.read p s

theorem Opening.gives_ofRead (dir : Directory σ) (s : σ) : Opening.ofRead.Gives dir s where
  read_eq p := by
    unfold read ofRead
    cases dir.read p s with
    | error e => rfl
    | ok content =>
      have hpos : 0 < bufferSize := Nat.succ_pos _
      show _ = (contents (readsOf bufferSize none OsError.missing content)).mapError _
      rw [contents_readsOf hpos]
      rfl
  fits p reads h := by
    unfold ofRead at h
    cases hread : dir.read p s with
    | error e =>
      rw [hread] at h
      cases h
    | ok content =>
      rw [hread] at h
      cases h
      exact fits_readsFrom

/-! ## Leaves -/

mutual

/-- The inputs that a tree consists of, from left to right. -/
def leaves : Inputs σ → List (Inputs σ)
  | nothing => [nothing]
  | sources dir set ignored full => [sources dir set ignored full]
  | parameters name value => [parameters name value]
  | several parts => leavesOf parts

/-- The leaves of several trees. -/
def leavesOf : List (Inputs σ) → List (Inputs σ)
  | [] => []
  | part :: rest => leaves part ++ leavesOf rest

end

/-- The files of a leaf are opened in a certain way. -/
def Opens (opening : Opening σ) (s : σ) : Inputs σ → Prop
  | sources dir .. => opening.Gives dir s
  | _ => True

/-- All files that count can be read, and parameters can be written. -/
def Readable (opening : Opening σ) (s : σ) : Inputs σ → Prop
  | sources dir set ignored _ => ∀ p, Counts (set s) ignored p → opening.CanRead dir s p
  | parameters _ value => ∃ text, (value s).canonicalText = .ok text
  | _ => True

/-- What goes wrong at a leaf: the first file that counts and cannot be read, or parameters that
cannot be written. -/
def FailsWith (opening : Opening σ) (s : σ) : Inputs σ → InputError → Prop
  | sources dir set ignored _, e => ∃ p cause, e = .unreadable dir.label p cause ∧
      Counts (set s) ignored p ∧ opening.hash dir p s = .error cause ∧
      ∀ q, Counts (set s) ignored q → Bytes.ofText q.text < Bytes.ofText p.text →
        opening.CanRead dir s q
  | parameters name value, e =>
    ∃ cause, e = .parameters name cause ∧ (value s).canonicalText = .error cause
  | _, _ => False

/-- At a leaf the same counts in two worlds, and the same is read of it. -/
def CountsAlike (s t : σ) : Inputs σ → Prop
  | sources dir set ignored _ =>
    (∀ p, Counts (set s) ignored p ↔ Counts (set t) ignored p) ∧
    ∀ p, Counts (set s) ignored p → dir.read p s = dir.read p t
  | parameters _ value => (value s).canonicalText = (value t).canonicalText
  | _ => True

/-! ## The first failure -/

theorem errorOf_hashFiles (dir : Directory σ) (s : σ) : ∀ l : List RelativePath,
    errorOf (hashFiles dir s l).2 =
      l.findSome? fun p => (errorOf (dir.read p s)).map (.unreadable dir.label p)
  | [] => rfl
  | p :: l => by
    rw [hashFiles, List.findSome?_cons]
    cases hp : dir.read p s with
    | error cause => rfl
    | ok content =>
      show errorOf (((p, ofBytes content) :: ·) <$> (hashFiles dir s l).2) = _
      rw [errorOf_map, errorOf_hashFiles dir s l]
      rfl

mutual

theorem errorOf_survey (s : σ) : ∀ inputs : Inputs σ, errorOf (survey s inputs).2 =
    inputs.leaves.findSome? fun leaf => errorOf (survey s leaf).2
  | nothing => rfl
  | sources .. => by rw [leaves, List.findSome?_singleton]
  | parameters .. => by rw [leaves, List.findSome?_singleton]
  | several parts => by
    rw [survey, leaves, ← errorOf_surveyAll s parts]
    exact errorOf_map _ _

theorem errorOf_surveyAll (s : σ) : ∀ parts : List (Inputs σ), errorOf (surveyAll s parts).2 =
    (leavesOf parts).findSome? fun leaf => errorOf (survey s leaf).2
  | [] => rfl
  | part :: rest => by
    rw [leavesOf, List.findSome?_append, ← errorOf_survey s part, ← errorOf_surveyAll s rest,
      surveyAll]
    cases hpart : survey s part with
    | mk events result =>
      cases result with
      | error e => rfl
      | ok fp => exact errorOf_map _ _

end

theorem mem_before_iff {α : Type} {r : α → α → Prop} (hirrefl : ∀ a, ¬r a a)
    (hasymm : ∀ a b, r a b → ¬r b a) {before after : List α} {a b : α}
    (h : (before ++ a :: after).Pairwise r) :
    b ∈ before ↔ b ∈ before ++ a :: after ∧ r b a := by
  obtain ⟨-, hafter, hcross⟩ := List.pairwise_append.1 h
  constructor
  · exact fun hb => ⟨List.mem_append_left _ hb, hcross b hb a List.mem_cons_self⟩
  · rintro ⟨hmem, hlt⟩
    rcases List.mem_append.1 hmem with hb | hb
    · exact hb
    · rcases List.mem_cons.1 hb with rfl | hb
      · exact absurd hlt (hirrefl b)
      · exact absurd hlt (hasymm a b ((List.pairwise_cons.1 hafter).1 b hb))

/-- The files that count, in the order of the bytes. -/
def counting (set : SourceSet) (ignored : IgnoreList) : List RelativePath :=
  set.files.toList.filter fun p => !ignored.ignores p

theorem mem_counting {set : SourceSet} {ignored : IgnoreList} {p : RelativePath} :
    p ∈ counting set ignored ↔ Counts set ignored p := by
  rw [counting, List.mem_filter, SortedSet.mem_toList, Bool.not_eq_true', Counts]

/-- The first failure among the files that count is that of the least one that fails. -/
theorem findSome?_counting {β : Type} {set : SourceSet} {ignored : IgnoreList}
    {f : RelativePath → Option β} {b : β} :
    (counting set ignored).findSome? f = some b ↔ ∃ p, Counts set ignored p ∧ f p = some b ∧
      ∀ q, Counts set ignored q → Bytes.ofText q.text < Bytes.ofText p.text → f q = none := by
  have hsorted : (counting set ignored).Pairwise fun p q =>
      Bytes.ofText p.text < Bytes.ofText q.text := set.files.pairwise_bytes.filter _
  have hbefore {before after : List RelativePath} {p q : RelativePath}
      (h : counting set ignored = before ++ p :: after) :
      q ∈ before ↔ Counts set ignored q ∧ Bytes.ofText q.text < Bytes.ofText p.text := by
    rw [← mem_counting, h]
    exact mem_before_iff (fun p => List.lt_irrefl (Bytes.ofText p.text))
      (fun _ _ hlt => List.lt_asymm hlt) (h ▸ hsorted)
  rw [List.findSome?_eq_some_iff]
  constructor
  · rintro ⟨before, p, after, hl, hp, hnone⟩
    have hmem : p ∈ counting set ignored := hl ▸ List.mem_append_right _ List.mem_cons_self
    exact ⟨p, mem_counting.1 hmem, hp, fun q hq hlt => hnone q ((hbefore hl).2 ⟨hq, hlt⟩)⟩
  · rintro ⟨p, hp, hfp, hnone⟩
    obtain ⟨before, after, hl⟩ := List.append_of_mem (mem_counting.2 hp)
    exact ⟨before, p, after, hl, hfp, fun q hq =>
      hnone q ((hbefore hl).1 hq).1 ((hbefore hl).1 hq).2⟩

mutual

theorem ne_several_of_mem_leaves : ∀ {inputs leaf : Inputs σ}, leaf ∈ inputs.leaves →
    ∀ parts, leaf ≠ several parts
  | nothing, _, h, _ => by
    rw [List.mem_singleton.1 h]
    exact nofun
  | sources .., _, h, _ => by
    rw [List.mem_singleton.1 h]
    exact nofun
  | parameters .., _, h, _ => by
    rw [List.mem_singleton.1 h]
    exact nofun
  | several _, _, h, parts => ne_several_of_mem_leavesOf h parts

theorem ne_several_of_mem_leavesOf : ∀ {parts : List (Inputs σ)} {leaf : Inputs σ},
    leaf ∈ leavesOf parts → ∀ parts', leaf ≠ several parts'
  | [], _, h, _ => absurd h List.not_mem_nil
  | _ :: _, _, h, parts' => (List.mem_append.1 h).elim
    (fun h => ne_several_of_mem_leaves h parts') fun h => ne_several_of_mem_leavesOf h parts'

end

/-! ## A single leaf -/

section
variable {opening : Opening σ} {s : σ}

theorem errorOf_sources (dir : Directory σ) (set : σ → SourceSet) (ignored : IgnoreList)
    (full : Bool) : errorOf (survey s (sources dir set ignored full)).2 =
      (counting (set s) ignored).findSome? fun p =>
        (errorOf (dir.read p s)).map (.unreadable dir.label p) := by
  rw [survey, ← errorOf_hashFiles]
  exact errorOf_map _ _

theorem errorOf_parameters (name : String) (value : σ → Parameter) :
    errorOf (survey s (parameters name value)).2 =
      (errorOf (value s).canonicalText).map (.parameters name) := by
  rw [survey, errorOf_mapError, Fingerprint.ofParameters]
  cases (value s).canonicalText <;> rfl

theorem errorOf_leaf_eq_some_iff {leaf : Inputs σ} (hopens : leaf.Opens opening s)
    (hleaf : ∀ parts, leaf ≠ several parts) {e : InputError} :
    errorOf (survey s leaf).2 = some e ↔ leaf.FailsWith opening s e := by
  cases leaf with
  | nothing => simp [survey, errorOf, FailsWith]
  | several parts => exact absurd rfl (hleaf parts)
  | parameters name value =>
    rw [errorOf_parameters, Option.map_eq_some_iff, FailsWith]
    simp only [errorOf_eq_some_iff]
    exact exists_congr fun cause => and_comm.trans (and_congr_left' eq_comm)
  | sources dir set ignored full =>
    have hopens : opening.Gives dir s := hopens
    rw [errorOf_sources, findSome?_counting, FailsWith]
    simp only [Option.map_eq_some_iff, Option.map_eq_none_iff, ← hopens.hash_eq_error_iff,
      ← hopens.canRead_iff]
    constructor
    · rintro ⟨p, hp, ⟨cause, hcause, rfl⟩, hleast⟩
      exact ⟨p, cause, rfl, hp, hcause, hleast⟩
    · rintro ⟨p, cause, rfl, hp, hcause, hleast⟩
      exact ⟨p, hp, ⟨cause, hcause, rfl⟩, hleast⟩

theorem errorOf_leaf_eq_none_iff {leaf : Inputs σ} (hopens : leaf.Opens opening s)
    (hleaf : ∀ parts, leaf ≠ several parts) :
    errorOf (survey s leaf).2 = none ↔ leaf.Readable opening s := by
  cases leaf with
  | nothing => simp [survey, errorOf, Readable]
  | several parts => exact absurd rfl (hleaf parts)
  | parameters name value =>
    rw [errorOf_parameters, Option.map_eq_none_iff, errorOf_eq_none_iff, Readable]
  | sources dir set ignored full =>
    have hopens : opening.Gives dir s := hopens
    rw [errorOf_sources, List.findSome?_eq_none_iff, Readable]
    simp only [mem_counting, Option.map_eq_none_iff, ← hopens.canRead_iff]

end

/-! ## Whole trees -/

theorem exists_fingerprint_iff {opening : Opening σ} {inputs : Inputs σ} {s : σ}
    (hopens : ∀ leaf ∈ inputs.leaves, leaf.Opens opening s) :
    (∃ fp, inputs.fingerprint s = .ok fp) ↔ ∀ leaf ∈ inputs.leaves, leaf.Readable opening s := by
  rw [fingerprint, ← errorOf_eq_none_iff, errorOf_survey, List.findSome?_eq_none_iff]
  refine forall₂_congr ?_
  intro leaf hleaf
  exact errorOf_leaf_eq_none_iff (hopens leaf hleaf) (ne_several_of_mem_leaves hleaf)

theorem fingerprint_eq_error_iff {opening : Opening σ} {inputs : Inputs σ} {s : σ}
    (hopens : ∀ leaf ∈ inputs.leaves, leaf.Opens opening s) {e : InputError} :
    inputs.fingerprint s = .error e ↔ ∃ before leaf after,
      inputs.leaves = before ++ leaf :: after ∧ (∀ l ∈ before, l.Readable opening s) ∧
      leaf.FailsWith opening s e := by
  rw [fingerprint, ← errorOf_eq_some_iff, errorOf_survey, List.findSome?_eq_some_iff]
  refine exists_congr fun before => exists_congr fun leaf => exists_congr fun after =>
    and_congr_right fun h => ?_
  have hbefore (l : Inputs σ) (hl : l ∈ before) : l ∈ inputs.leaves :=
    h ▸ List.mem_append_left _ hl
  have hleaf : leaf ∈ inputs.leaves := h ▸ List.mem_append_right _ List.mem_cons_self
  rw [and_comm, errorOf_leaf_eq_some_iff (hopens leaf hleaf) (ne_several_of_mem_leaves hleaf)]
  refine and_congr_left' (forall₂_congr ?_)
  intro l hl
  exact errorOf_leaf_eq_none_iff (hopens l (hbefore l hl)) (ne_several_of_mem_leaves (hbefore l hl))

/-! ## Files that do not count -/

theorem counting_congr {set set' : SourceSet} {ignored : IgnoreList}
    (h : ∀ p, Counts set ignored p ↔ Counts set' ignored p) :
    counting set ignored = counting set' ignored := by
  let before (p q : RelativePath) : Prop := Bytes.ofText p.text < Bytes.ofText q.text
  have hirrefl : Std.Irrefl before := ⟨fun p => List.lt_irrefl (Bytes.ofText p.text)⟩
  have hantisymm : Std.Antisymm before := ⟨fun p q hlt hgt => absurd hgt (List.lt_asymm hlt)⟩
  refine List.Pairwise.eq_of_mem_iff (r := before) (set.files.pairwise_bytes.filter _)
    (set'.files.pairwise_bytes.filter _) fun p => ?_
  show p ∈ counting set ignored ↔ p ∈ counting set' ignored
  rw [mem_counting, mem_counting, h]

theorem hashFiles_congr {dir : Directory σ} {s t : σ} : ∀ {l : List RelativePath},
    (∀ p ∈ l, dir.read p s = dir.read p t) → hashFiles dir s l = hashFiles dir t l
  | [], _ => rfl
  | p :: l, h => by
    obtain ⟨hp, hl⟩ := List.forall_mem_cons.1 h
    rw [hashFiles, hashFiles, hp, hashFiles_congr hl]

mutual

/-- Whatever else is different in another world, a survey gives the same. -/
theorem survey_congr {s t : σ} : ∀ {inputs : Inputs σ},
    (∀ leaf ∈ inputs.leaves, leaf.CountsAlike s t) → survey s inputs = survey t inputs
  | nothing, _ => rfl
  | sources dir set ignored full, h => by
    obtain ⟨hcounts, hread⟩ := h _ List.mem_cons_self
    have hhash : hashFiles dir s (counting (set s) ignored) =
        hashFiles dir t (counting (set t) ignored) := by
      rw [← counting_congr hcounts]
      exact hashFiles_congr fun p hp => hread p (mem_counting.1 hp)
    unfold counting at hhash
    rw [survey, survey, hhash]
  | parameters name value, h => by
    have htext : (value s).canonicalText = (value t).canonicalText := h _ List.mem_cons_self
    rw [survey, survey, Fingerprint.ofParameters, Fingerprint.ofParameters, htext]
  | several parts, h => by rw [survey, survey, surveyAll_congr h]

theorem surveyAll_congr {s t : σ} : ∀ {parts : List (Inputs σ)},
    (∀ leaf ∈ leavesOf parts, leaf.CountsAlike s t) → surveyAll s parts = surveyAll t parts
  | [], _ => rfl
  | part :: rest, h => by
    rw [surveyAll, surveyAll, survey_congr fun leaf hl => h leaf (List.mem_append_left _ hl),
      surveyAll_congr fun leaf hl => h leaf (List.mem_append_right _ hl)]

end

end Inputs

/-! ## Nothing is changed -/

theorem SessionM.run_ask_bind {α : Type} (f : World → SessionM α) (session : Session) :
    (SessionM.ask id >>= f).run.run session = (f session.traced.world).run.run session := rfl

/-- A survey in a session gives the fingerprint or its error and tells the log. -/
theorem Session.survey_run (inputs : Inputs World) (session : Session) :
    (Session.survey inputs).run.run session =
      ((inputs.fingerprint session.traced.world).mapError .input,
        { session with traced := { session.traced with
          log := (inputs.survey session.traced.world).1.reverse ++ session.traced.log } }) := by
  rw [Session.survey, SessionM.run_ask_bind, Inputs.fingerprint]
  cases inputs.survey session.traced.world with
  | mk events result => cases result <;> rfl

namespace Inputs

variable {σ : Type}

/-- A fingerprint can be taken exactly if every file that counts can be opened and read to its end
and all parameters can be written. Otherwise the error is that of the first leaf that fails, at a
set of files that of the first file. Files that do not count make no difference, and nothing but the
log is changed. -/
theorem fingerprint_first_failure {opening : Opening σ} {inputs : Inputs σ} {s : σ}
    (hopens : ∀ leaf ∈ inputs.leaves, leaf.Opens opening s) :
    ((∃ fp, inputs.fingerprint s = .ok fp) ↔
      ∀ leaf ∈ inputs.leaves, leaf.Readable opening s) ∧
    (∀ e, inputs.fingerprint s = .error e ↔ ∃ before leaf after,
      inputs.leaves = before ++ leaf :: after ∧ (∀ l ∈ before, l.Readable opening s) ∧
      leaf.FailsWith opening s e) ∧
    (∀ t, (∀ leaf ∈ inputs.leaves, leaf.CountsAlike s t) →
      inputs.fingerprint t = inputs.fingerprint s) ∧
    ∀ (inputs : Inputs World) (session : Session),
      ∃ log, (Session.survey inputs).run.run session =
        ((inputs.fingerprint session.traced.world).mapError .input,
          { session with traced := { session.traced with log := log ++ session.traced.log } }) := by
  refine ⟨exists_fingerprint_iff hopens, fun e => fingerprint_eq_error_iff hopens, ?_, ?_⟩
  · intro t halike
    rw [fingerprint, fingerprint, survey_congr halike]
  · intro inputs session
    exact ⟨_, Session.survey_run inputs session⟩

/-- A directory in which the reader of `a` gives two pieces and that of any other file breaks off
after one. -/
def brittleFiles : Directory Unit where
  label := "brittle"
  holds _ _ := true
  read p _ := if p.text = "a" then .ok [1, 2] else .error (.io p .isDirectory)
  write _ _ s := (.ok (), s)
  delete _ s := (.ok (), s)
  list _ _ := .ok []

def brittleReaders : Opening Unit := fun _ p _ =>
  .ok (if p.text = "a" then [.ok [1], .ok [2], .ok []] else [.ok [1], .error .isDirectory])

theorem gives_brittleReaders : brittleReaders.Gives brittleFiles () where
  read_eq p := by
    unfold brittleFiles Opening.read brittleReaders
    by_cases hp : p.text = "a"
    · simp only [hp]; rfl
    · simp only [hp]; rfl
  fits p reads h := by
    unfold brittleReaders at h
    by_cases hp : p.text = "a"
    · simp only [hp] at h
      cases h
      exact ⟨by decide, fun _ => ⟨by decide, fun _ => ⟨by decide, fun h => absurd rfl h⟩⟩⟩
    · simp only [hp] at h
      cases h
      exact ⟨by decide, fun _ => trivial⟩

/-- The path of a single letter. -/
def letter (c : String) (h : IsSegment c ∧ isDriveName c = false) : RelativePath where
  segments := [c]
  nonempty := List.cons_ne_nil _ _
  plain _ hs := List.mem_singleton.1 hs ▸ h.1
  noDrive _ hs := Option.some.inj hs ▸ h.2

/-- The file that is the first to fail. -/
def brokenFile : RelativePath := letter "c" (by decide)

def brittlePaths : List RelativePath := [brokenFile, letter "b" (by decide), letter "a" (by decide)]

/-- A set of three files, of which `b` is ignored, between other inputs. -/
def brittleInputs : Inputs Unit :=
  several [nothing,
    several [sources brittleFiles (fun _ => ⟨"set", .ofList brittlePaths⟩) ⟨[⟨"b", [.char 'b']⟩]⟩
      true],
    parameters "later" fun _ => .failing "too late"]

/-- The file `b` breaks off too, but it is ignored, and what comes later is not reached. -/
theorem fingerprint_first_failure_brittle :
    (∀ leaf ∈ brittleInputs.leaves, leaf.Opens brittleReaders ()) ∧
    brittleInputs.fingerprint () =
      .error (.unreadable "brittle" brokenFile (.io brokenFile .isDirectory)) := by
  have hopens : ∀ leaf ∈ brittleInputs.leaves, leaf.Opens brittleReaders () := by
    intro leaf hleaf
    simp only [brittleInputs, leaves, leavesOf, List.append_nil, List.cons_append, List.nil_append,
      List.mem_cons, List.not_mem_nil, or_false] at hleaf
    rcases hleaf with rfl | rfl | rfl
    · trivial
    · exact gives_brittleReaders
    · trivial
  refine ⟨hopens, ((fingerprint_first_failure hopens).2.1 _).2
    ⟨[nothing], _, [_], rfl, fun l hl => ?_, brokenFile, .io brokenFile .isDirectory, rfl,
      ⟨?_, rfl⟩, rfl, ?_⟩⟩
  · rw [List.mem_singleton.1 hl]
    trivial
  · exact (SortedSet.mem_ofList _ _).2 List.mem_cons_self
  · rintro q ⟨hq, hignored⟩ hlt
    have hmem := (SortedSet.mem_ofList _ _).1 hq
    simp only [brittlePaths, List.mem_cons, List.not_mem_nil, or_false] at hmem
    rcases hmem with rfl | rfl | rfl
    · exact absurd hlt (List.lt_irrefl _)
    · cases hignored
    · exact ⟨_, [1, 2], rfl, rfl⟩

end Inputs

end Rebuild
