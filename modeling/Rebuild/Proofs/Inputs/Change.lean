import Rebuild.Inputs.Basic
import Rebuild.Proofs.Fingerprint.Agreement

/-!
# Fingerprints change exactly when inputs do

Two trees of inputs of one shape are surveyed, each in a world of its own. As
long as no two of the contents at hand collide under SHA-256, the fingerprints
agree exactly if the same is observed at every leaf. What is not observed (other
files, ignored files, the order and the repetition of rules) therefore never
matters, and what is observed is never missed.

* `SameShape`, `SameObserved`: the two relations between trees in two worlds.
* `Hashed`: the contents and texts whose digests enter a fingerprint.
* `agrees_iff_sameObserved`: the fingerprints agree iff the observations do.
* `sameObserved_sources`: what does not count at a set of files.
-/
namespace Rebuild

theorem sortedTexts_eq_iff {l m : List String} :
    sortedTexts l = sortedTexts m ↔ ∀ s, s ∈ l ↔ s ∈ m := by
  have mem (l : List String) (s : String) : s ∈ sortedTexts l ↔ s ∈ l := by
    rw [sortedTexts, SortedSet.mem_toList, SortedSet.mem_ofList]
  constructor
  · intro h s
    rw [← mem l, h, mem m]
  · intro h
    have : SortedSet.ofList l = SortedSet.ofList m := SortedSet.ext_mem fun s => by
      rw [SortedSet.mem_ofList, SortedSet.mem_ofList, h s]
    rw [sortedTexts, this, sortedTexts]

namespace Inputs

variable {σ τ : Type}

/-- A member that is not ignored. -/
def Counts (set : SourceSet) (ignored : IgnoreList) (p : RelativePath) : Prop :=
  p ∈ set.files ∧ ignored.ignores p = false

mutual

/-- Leaves of the same kinds at the same places, blocks of parameters under the same names. -/
def SameShape : Inputs σ → Inputs τ → Prop
  | nothing, nothing => True
  | sources .., sources .. => True
  | parameters name _, parameters name' _ => name = name'
  | several parts, several parts' => SameShapes parts parts'
  | _, _ => False

/-- Lists of the same length with parts of the same shapes. -/
def SameShapes : List (Inputs σ) → List (Inputs τ) → Prop
  | [], [] => True
  | a :: rest, b :: rest' => SameShape a b ∧ SameShapes rest rest'
  | _, _ => False

end

mutual

/-- At every leaf the same is observed in the two worlds: the same files that count, with the same
bytes, and the same rules if they are asked for; the same canonical text of parameters. -/
def SameObserved (s : σ) (t : τ) : Inputs σ → Inputs τ → Prop
  | nothing, nothing => True
  | sources dir set ignored full, sources dir' set' ignored' full' =>
    (∀ p, Counts (set s) ignored p ↔ Counts (set' t) ignored' p) ∧
    (∀ p, Counts (set s) ignored p → dir.read p s = dir'.read p t) ∧
    full = full' ∧ (full = true → ∀ rule, rule ∈ ignored.rules ↔ rule ∈ ignored'.rules)
  | parameters _ value, parameters _ value' =>
    (value s).canonicalText = (value' t).canonicalText
  | several parts, several parts' => AllSameObserved s t parts parts'
  | _, _ => False

/-- The same is observed at every leaf of every part. -/
def AllSameObserved (s : σ) (t : τ) : List (Inputs σ) → List (Inputs τ) → Prop
  | [], [] => True
  | a :: rest, b :: rest' => SameObserved s t a b ∧ AllSameObserved s t rest rest'
  | _, _ => False

end

mutual

/-- A digest of the bytes enters the fingerprint. -/
def Hashed (s : σ) (content : Bytes) : Inputs σ → Prop
  | nothing => False
  | sources dir set ignored _ => ∃ p, Counts (set s) ignored p ∧ dir.read p s = .ok content
  | parameters _ value => ∃ text, (value s).canonicalText = .ok text ∧ content = Bytes.ofText text
  | several parts => HashedIn s content parts

/-- A digest of the bytes enters the fingerprint of some part. -/
def HashedIn (s : σ) (content : Bytes) : List (Inputs σ) → Prop
  | [] => False
  | part :: rest => Hashed s content part ∨ HashedIn s content rest

end

/-! ## What a survey gives -/

theorem surveyAll_cons_ok {s : σ} {part : Inputs σ} {rest : List (Inputs σ)}
    {fps : List Fingerprint} (h : (surveyAll s (part :: rest)).2 = .ok fps) :
    ∃ fp others, (survey s part).2 = .ok fp ∧ (surveyAll s rest).2 = .ok others ∧
      fps = fp :: others := by
  rw [surveyAll] at h
  split at h
  next => cases h
  next fp he =>
    cases hr : (surveyAll s rest).2 with
    | error e => simp only [hr] at h; cases h
    | ok others =>
      simp only [hr] at h
      cases h
      exact ⟨fp, others, by rw [he], rfl, rfl⟩

mutual

theorem isBuiltIn_of_survey (s : σ) : ∀ (inputs : Inputs σ) (fp : Fingerprint),
    (survey s inputs).2 = .ok fp → fp.isBuiltIn = true
  | nothing, fp, h => by
    cases h; rfl
  | sources dir set ignored full, fp, h => by
    simp only [survey] at h
    cases hh : (hashFiles dir s ((set s).files.toList.filter fun p => !ignored.ignores p)).2 with
    | error e => rw [hh] at h; cases h
    | ok hashes => rw [hh] at h; cases h; rfl
  | parameters name value, fp, h => by
    simp only [survey, Fingerprint.ofParameters] at h
    cases ht : (value s).canonicalText with
    | error e => rw [ht] at h; cases h
    | ok text => rw [ht] at h; cases h; rfl
  | several parts, fp, h => by
    simp only [survey] at h
    cases hp : (surveyAll s parts).2 with
    | error e => rw [hp] at h; cases h
    | ok fps =>
      rw [hp] at h
      cases h
      exact areBuiltIn_of_surveyAll s parts fps hp

theorem areBuiltIn_of_surveyAll (s : σ) : ∀ (parts : List (Inputs σ)) (fps : List Fingerprint),
    (surveyAll s parts).2 = .ok fps → Fingerprint.areBuiltIn fps = true
  | [], fps, h => by cases h; rfl
  | part :: rest, fps, h => by
    obtain ⟨fp, others, hfp, hothers, rfl⟩ := surveyAll_cons_ok h
    have h1 := isBuiltIn_of_survey s part fp hfp
    have h2 := areBuiltIn_of_surveyAll s rest others hothers
    rw [Fingerprint.areBuiltIn, h1, h2, Bool.and_self]

end

/-- What hashing files gives: one hash for each, in order, of what is read. -/
theorem hashFiles_ok {dir : Directory σ} {s : σ} : ∀ {l : List RelativePath}
    {hashes : List (RelativePath × ContentHash)}, (hashFiles dir s l).2 = .ok hashes →
    hashes.map Prod.fst = l ∧
      (∀ e ∈ hashes, ∃ content, dir.read e.1 s = .ok content ∧ ContentHash.ofBytes content = e.2)
  | [], hashes, h => by
    cases h
    exact ⟨rfl, fun e he => absurd he (List.not_mem_nil)⟩
  | p :: l, hashes, h => by
    rw [hashFiles] at h
    split at h
    next => cases h
    next content hc =>
      cases hl : (hashFiles dir s l).2 with
      | error e => simp only [hl] at h; cases h
      | ok others =>
        simp only [hl] at h
        cases h
        obtain ⟨hkeys, hmem⟩ := hashFiles_ok hl
        refine ⟨by rw [List.map_cons, hkeys], ?_⟩
        intro e he
        rcases List.mem_cons.1 he with rfl | he
        · exact ⟨content, hc, rfl⟩
        · exact hmem e he

/-- The paths of the hashes of a set are the set's, so they are ascending. -/
theorem ascending_of_hashFiles {dir : Directory σ} {s : σ} {set : SortedSet RelativePath}
    {keep : RelativePath → Bool} {hashes : List (RelativePath × ContentHash)}
    (h : (hashFiles dir s (set.toList.filter keep)).2 = .ok hashes) : Assoc.Ascending hashes := by
  have hkeys : (hashes.map Prod.fst).Pairwise fun p q => compare p q = .lt := by
    have hset : set.toList.Pairwise fun p q => compare p q = .lt :=
      List.pairwise_map.2 set.map.ascending
    rw [(hashFiles_ok h).1]
    exact hset.filter keep
  exact List.pairwise_map.1 hkeys

theorem get?_hashes {dir : Directory σ} {s : σ} {set : SourceSet} {ignored : IgnoreList}
    {hashes : List (RelativePath × ContentHash)}
    (h : (hashFiles dir s (set.files.toList.filter fun p => !ignored.ignores p)).2 = .ok hashes)
    (p : RelativePath) (digest : ContentHash) :
    (SortedMap.ofList hashes).get? p = some digest ↔
      Counts set ignored p ∧
        ∃ content, dir.read p s = .ok content ∧ ContentHash.ofBytes content = digest := by
  have hasc := ascending_of_hashFiles h
  obtain ⟨hkeys, hmem⟩ := hashFiles_ok h
  have hcounts : p ∈ hashes.map Prod.fst ↔ Counts set ignored p := by
    rw [hkeys, List.mem_filter, SortedSet.mem_toList, Bool.not_eq_true', Counts]
  rw [SortedMap.get?_ofList hasc, ← Assoc.mem_iff_find? hasc, ← hcounts]
  constructor
  · intro he
    exact ⟨List.mem_map.2 ⟨_, he, rfl⟩, hmem _ he⟩
  · rintro ⟨hp, content, hread, rfl⟩
    obtain ⟨⟨q, d⟩, he, rfl⟩ := List.mem_map.1 hp
    obtain ⟨content', hread', rfl⟩ := hmem _ he
    rw [hread] at hread'
    cases hread'
    exact he

theorem exists_read_of_counts {dir : Directory σ} {s : σ} {set : SourceSet} {ignored : IgnoreList}
    {hashes : List (RelativePath × ContentHash)}
    (h : (hashFiles dir s (set.files.toList.filter fun p => !ignored.ignores p)).2 = .ok hashes)
    {p : RelativePath} (hp : Counts set ignored p) : ∃ content, dir.read p s = .ok content := by
  obtain ⟨hkeys, hmem⟩ := hashFiles_ok h
  have hk : p ∈ hashes.map Prod.fst := by
    rw [hkeys, List.mem_filter, SortedSet.mem_toList, Bool.not_eq_true']
    exact hp
  obtain ⟨e, he, rfl⟩ := List.mem_map.1 hk
  obtain ⟨content, hc, -⟩ := hmem e he
  exact ⟨content, hc⟩

/-! ## Leaves -/

/-- Hashes agree exactly if the same files count and have the same contents. -/
theorem hashes_eq_iff {dir : Directory σ} {dir' : Directory τ} {s : σ} {t : τ}
    {set set' : SourceSet} {ignored ignored' : IgnoreList}
    {hashes hashes' : List (RelativePath × ContentHash)}
    (h : (hashFiles dir s (set.files.toList.filter fun p => !ignored.ignores p)).2 = .ok hashes)
    (h' : (hashFiles dir' t (set'.files.toList.filter fun p => !ignored'.ignores p)).2 =
      .ok hashes')
    (hcoll : ∀ a b, (∃ p, Counts set ignored p ∧ dir.read p s = .ok a) →
      (∃ p, Counts set' ignored' p ∧ dir'.read p t = .ok b) →
      Sha256.digest a = Sha256.digest b → a = b) :
    SortedMap.ofList hashes = SortedMap.ofList hashes' ↔
      (∀ p, Counts set ignored p ↔ Counts set' ignored' p) ∧
        ∀ p, Counts set ignored p → dir.read p s = dir'.read p t := by
  have hget := get?_hashes h
  have hget' := get?_hashes h'
  constructor
  · intro heq
    rw [← heq] at hget'
    refine ⟨fun p => ⟨?_, ?_⟩, ?_⟩
    · intro hp
      obtain ⟨content, hc⟩ := exists_read_of_counts h hp
      exact ((hget' p _).1 ((hget p _).2 ⟨hp, content, hc, rfl⟩)).1
    · intro hp
      obtain ⟨content, hc⟩ := exists_read_of_counts h' hp
      exact ((hget p _).1 ((hget' p _).2 ⟨hp, content, hc, rfl⟩)).1
    · intro p hp
      obtain ⟨a, ha⟩ := exists_read_of_counts h hp
      obtain ⟨hp', b, hb, hd⟩ := (hget' p _).1 ((hget p _).2 ⟨hp, a, ha, rfl⟩)
      have hab := hcoll a b ⟨p, hp, ha⟩ ⟨p, hp', hb⟩ (ContentHash.digest_eq_of_ofBytes_eq hd.symm)
      rw [ha, hb, hab]
  · intro ⟨hcounts, hreads⟩
    refine SortedMap.ext_get? fun p => Option.ext ?_
    intro digest
    rw [hget, hget', ← hcounts]
    refine and_congr_right ?_
    intro hp
    rw [hreads p hp]

theorem exclusions_eq_iff {full full' : Bool} {rules rules' : List String} :
    (if full then some rules else none).map sortedTexts =
        (if full' then some rules' else none).map sortedTexts ↔
      full = full' ∧ (full = true → ∀ rule, rule ∈ rules ↔ rule ∈ rules') := by
  cases full <;> cases full' <;> simp [sortedTexts_eq_iff]

theorem ignores_congr {l m : IgnoreList} (h : ∀ rule, rule ∈ l.patterns ↔ rule ∈ m.patterns)
    (p : RelativePath) : l.ignores p = m.ignores p := by
  refine Bool.eq_iff_iff.2 ?_
  unfold IgnoreList.ignores
  rw [List.any_eq_true, List.any_eq_true]
  simp only [h]

/-- Only files that count matter, and neither do the order and the number of rules. -/
theorem sameObserved_sources {dir : Directory σ} {dir' : Directory τ} {s : σ} {t : τ}
    {set : σ → SourceSet} {set' : τ → SourceSet} {ignored ignored' : IgnoreList} (full : Bool)
    (hfiles : ∀ p, p ∈ (set s).files ↔ p ∈ (set' t).files)
    (hrules : ∀ rule, rule ∈ ignored.patterns ↔ rule ∈ ignored'.patterns)
    (hread : ∀ p, Counts (set s) ignored p → dir.read p s = dir'.read p t) :
    SameObserved s t (sources dir set ignored full) (sources dir' set' ignored' full) := by
  refine ⟨?_, hread, rfl, ?_⟩
  · intro p
    unfold Counts
    rw [hfiles, ignores_congr hrules]
  · intro _ rule
    unfold IgnoreList.rules
    simp only [List.mem_map, hrules]

/-! ## Trees -/

/-- No content of one tree collides with another content of the other. -/
def NoCollision (s : σ) (t : τ) (inputs : Inputs σ) (inputs' : Inputs τ) : Prop :=
  ∀ a b, Hashed s a inputs → Hashed t b inputs' → Sha256.digest a = Sha256.digest b → a = b

mutual

/-- Fingerprints of trees of one shape are equal exactly if the observations are the same. -/
theorem survey_eq_iff (s : σ) (t : τ) : ∀ (inputs : Inputs σ) (inputs' : Inputs τ)
    (fp fp' : Fingerprint), SameShape inputs inputs' → NoCollision s t inputs inputs' →
    (survey s inputs).2 = .ok fp → (survey t inputs').2 = .ok fp' →
    (fp = fp' ↔ SameObserved s t inputs inputs')
  | nothing, inputs', fp, fp', hshape, _, h, h' => by
    cases inputs' with
    | nothing => cases h; cases h'; simp [SameObserved]
    | _ => exact hshape.elim
  | sources dir set ignored full, inputs', fp, fp', hshape, hcoll, h, h' => by
    cases inputs' with
    | sources dir' set' ignored' full' =>
      simp only [survey] at h h'
      cases hh : (hashFiles dir s ((set s).files.toList.filter fun p => !ignored.ignores p)).2 with
      | error e => rw [hh] at h; cases h
      | ok hashes =>
        cases hh' : (hashFiles dir' t
            ((set' t).files.toList.filter fun p => !ignored'.ignores p)).2 with
        | error e => rw [hh'] at h'; cases h'
        | ok hashes' =>
          rw [hh] at h
          rw [hh'] at h'
          cases h
          cases h'
          unfold Fingerprint.ofFiles SameObserved
          rw [Fingerprint.sourceSet.injEq, hashes_eq_iff hh hh' hcoll, exclusions_eq_iff, and_assoc]
    | _ => exact hshape.elim
  | parameters name value, inputs', fp, fp', hshape, hcoll, h, h' => by
    cases inputs' with
    | parameters name' value' =>
      cases (hshape : name = name')
      simp only [survey, Fingerprint.ofParameters] at h h'
      cases ht : (value s).canonicalText with
      | error e => rw [ht] at h; cases h
      | ok text =>
        cases ht' : (value' t).canonicalText with
        | error e => rw [ht'] at h'; cases h'
        | ok text' =>
          rw [ht] at h
          rw [ht'] at h'
          cases h
          cases h'
          unfold SameObserved
          rw [ht, ht', Fingerprint.parameters.injEq, Except.ok.injEq]
          constructor
          · rintro ⟨-, hd⟩
            exact Bytes.ofText_injective (hcoll _ _ ⟨text, ht, rfl⟩ ⟨text', ht', rfl⟩
              (ContentHash.digest_eq_of_ofBytes_eq hd))
          · rintro rfl
            exact ⟨rfl, rfl⟩
    | _ => exact hshape.elim
  | several parts, inputs', fp, fp', hshape, hcoll, h, h' => by
    cases inputs' with
    | several parts' =>
      simp only [survey] at h h'
      cases hp : (surveyAll s parts).2 with
      | error e => rw [hp] at h; cases h
      | ok fps =>
        cases hp' : (surveyAll t parts').2 with
        | error e => rw [hp'] at h'; cases h'
        | ok fps' =>
          rw [hp] at h
          rw [hp'] at h'
          cases h
          cases h'
          rw [Fingerprint.combined.injEq]
          exact surveyAll_eq_iff s t parts parts' fps fps' hshape hcoll hp hp'
    | _ => exact hshape.elim

theorem surveyAll_eq_iff (s : σ) (t : τ) : ∀ (parts : List (Inputs σ)) (parts' : List (Inputs τ))
    (fps fps' : List Fingerprint), SameShapes parts parts' →
    (∀ a b, HashedIn s a parts → HashedIn t b parts' → Sha256.digest a = Sha256.digest b → a = b) →
    (surveyAll s parts).2 = .ok fps → (surveyAll t parts').2 = .ok fps' →
    (fps = fps' ↔ AllSameObserved s t parts parts')
  | [], parts', fps, fps', hshape, _, h, h' => by
    cases parts' with
    | nil => cases h; cases h'; simp [AllSameObserved]
    | cons => exact hshape.elim
  | part :: rest, parts', fps, fps', hshape, hcoll, h, h' => by
    cases parts' with
    | nil => exact hshape.elim
    | cons part' rest' =>
      obtain ⟨fp, others, hfp, hothers, rfl⟩ := surveyAll_cons_ok h
      obtain ⟨fp', others', hfp', hothers', rfl⟩ := surveyAll_cons_ok h'
      have hhead := survey_eq_iff s t part part' fp fp' hshape.1
        (fun a b ha hb => hcoll a b (Or.inl ha) (Or.inl hb)) hfp hfp'
      have htail := surveyAll_eq_iff s t rest rest' others others' hshape.2
        (fun a b ha hb => hcoll a b (Or.inr ha) (Or.inr hb)) hothers hothers'
      rw [List.cons.injEq, hhead, htail, AllSameObserved]

end

/-- Fingerprints of trees of one shape agree exactly if the observations are the same. -/
theorem agrees_iff_sameObserved {s : σ} {t : τ} {inputs : Inputs σ} {inputs' : Inputs τ}
    {fp fp' : Fingerprint} (hshape : SameShape inputs inputs')
    (hcoll : NoCollision s t inputs inputs') (h : inputs.fingerprint s = .ok fp)
    (h' : inputs'.fingerprint t = .ok fp') :
    fp.agrees fp' = true ↔ SameObserved s t inputs inputs' := by
  rw [Fingerprint.agrees_iff (isBuiltIn_of_survey s inputs fp h)]
  exact survey_eq_iff s t inputs inputs' fp fp' hshape hcoll h h'

/-- A world that is a set of files, each of which reads like the text of no parameters. -/
def blankFiles : Directory SourceSet where
  label := "blank"
  holds _ _ := true
  read _ _ := .ok (Bytes.ofText (Json.compact .null))
  write _ _ set := (.ok (), set)
  delete _ set := (.ok (), set)
  list _ set := .ok set.files.toList

/-- The set itself and a block of parameters without a value. -/
def setAndBlock : Inputs SourceSet :=
  several [sources blankFiles id {} true, several [parameters "block" fun _ => .unit, nothing]]

theorem hashed_setAndBlock {set : SourceSet} {content : Bytes}
    (h : Hashed set content setAndBlock) : content = Bytes.ofText (Json.compact .null) := by
  rcases h with ⟨p, -, hread⟩ | (⟨text, htext, rfl⟩ | hnone | hnone) | hnone
  · cases hread; rfl
  · cases htext; rfl
  all_goals exact hnone.elim

/-- A file that joins the set changes the fingerprint, whatever the digests are. -/
theorem agrees_iff_sameObserved_file_added : ∃ fp fp',
    SameShape setAndBlock setAndBlock ∧
    NoCollision ⟨"s", ∅⟩ ⟨"s", .ofList [⟨["a"], by decide, by decide, by decide⟩]⟩
      setAndBlock setAndBlock ∧
    setAndBlock.fingerprint ⟨"s", ∅⟩ = .ok fp ∧
    setAndBlock.fingerprint ⟨"s", .ofList [⟨["a"], by decide, by decide, by decide⟩]⟩ = .ok fp' ∧
    (fp.agrees fp' = true ↔ SameObserved ⟨"s", ∅⟩
      ⟨"s", .ofList [⟨["a"], by decide, by decide, by decide⟩]⟩ setAndBlock setAndBlock) := by
  have hshape : SameShape setAndBlock setAndBlock := ⟨trivial, ⟨rfl, trivial, trivial⟩, trivial⟩
  have hcoll (s t : SourceSet) : NoCollision s t setAndBlock setAndBlock := fun a b ha hb _ => by
    rw [hashed_setAndBlock ha, hashed_setAndBlock hb]
  exact ⟨_, _, hshape, hcoll _ _, rfl, rfl, agrees_iff_sameObserved hshape (hcoll _ _) rfl rfl⟩

end Inputs

end Rebuild
