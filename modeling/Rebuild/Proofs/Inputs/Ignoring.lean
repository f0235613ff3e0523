import Rebuild.Inputs.IgnoreList
import Rebuild.Proofs.Except
import Rebuild.Proofs.Glob.Segments
import Rebuild.Proofs.Path.Spelling

/-!
# What rules ignore

A rule applies to a path if it matches its segments or its file name alone. Nothing in a rule but
`/` and `**` reaches from one segment into another, so a rule that has neither is about file names.

* `Glob.Pattern.matches_iff`: a pattern matches a text by its segments.
* `RuleApplies`: what it means that a rule applies to a path.
* `IgnoreList.ofRules_cons_eq_ok_iff`: a list is read rule by rule.
* `IgnoreList.ignores_iff`, `IgnoreList.ignores_alone_iff`: which paths a list ignores, and a rule
  that is about file names.
* `IgnoreList.ignores_by_segments`: the two, and what stays inside a segment.
-/
namespace Rebuild
open Glob

/-! ## Patterns and texts -/

section
variable {rule : String} {pattern : Pattern}

theorem Glob.Pattern.parse_of_ofText (h : Pattern.ofText rule = .ok pattern) :
    parse rule = .ok pattern.tokens := by
  unfold Pattern.ofText at h
  cases hparse : parse rule with
  | error e =>
    rw [hparse] at h
    cases h
  | ok tokens =>
    rw [hparse] at h
    cases h
    rfl

/-- A pattern matches a text exactly if its parts match the segments of the text. -/
theorem Glob.Pattern.matches_iff (h : Pattern.ofText rule = .ok pattern)
    (hempty : [] ∉ parts rule.toList) {text : String} {segments : List (List Char)}
    (hne : segments ≠ []) (hs : ∀ s ∈ segments, '/' ∉ s)
    (htext : text.toList = ['/'].intercalate segments) :
    pattern.matches text = true ↔ MatchesSegments (parts rule.toList) segments := by
  have hspells := spells_of_parse (parse_of_ofText h)
  have hplain := isPlain_of_mem_parts rule.toList
  rw [Pattern.matches, beq_iff_eq, run_eq_success_iff (hspells.placed hplain), htext,
    hspells.takes_iff hplain hempty hne hs]

end

/-! ## Paths -/

namespace RelativePath
variable (p : RelativePath)

theorem separator_notMem_segment {s : String} (h : s ∈ p.segments) : '/' ∉ s.toList :=
  (p.plain s h).2.2.2.1

theorem separator_notMem_fileName : '/' ∉ p.fileName.toList :=
  p.separator_notMem_segment (List.getLast_mem p.nonempty)

end RelativePath

/-- A rule applies to a path: it matches all of its segments, or the last one alone. -/
def RuleApplies (rule : String) (p : RelativePath) : Prop :=
  MatchesSegments (parts rule.toList) (p.segments.map String.toList) ∨
    MatchesSegments (parts rule.toList) [p.fileName.toList]

instance (rule : String) (p : RelativePath) : Decidable (RuleApplies rule p) :=
  inferInstanceAs (Decidable (_ ∨ _))

theorem Glob.Pattern.matches_or_iff {rule : String} {pattern : Pattern}
    (h : Pattern.ofText rule = .ok pattern) (hempty : [] ∉ parts rule.toList) (p : RelativePath) :
    (pattern.matches p.text || pattern.matches p.fileName) = true ↔ RuleApplies rule p := by
  have hpath : pattern.matches p.text = true ↔ _ :=
    Pattern.matches_iff h hempty (by simpa using p.nonempty)
      (List.forall_mem_map.2 fun _ => p.separator_notMem_segment) p.toList_text
  have hname : pattern.matches p.fileName = true ↔ _ :=
    Pattern.matches_iff h hempty (List.cons_ne_nil _ _)
      (List.forall_mem_singleton.2 p.separator_notMem_fileName) (List.intercalate_singleton ..).symm
  rw [Bool.or_eq_true, hpath, hname, RuleApplies]

theorem ruleApplies_iff_of_singleton {rule : String} {part : List Token}
    (h : parts rule.toList = [part]) (hpart : part ≠ doubleStar) (p : RelativePath) :
    RuleApplies rule p ↔ MatchesSegment part p.fileName.toList := by
  have hnil {segments : List (List Char)} : MatchesSegments [] segments ↔ segments = [] := Iff.rfl
  simp only [RuleApplies, h, matchesSegments_cons hpart, hnil]
  constructor
  · rintro (⟨segment, later, heq, hmatch, rfl⟩ | ⟨segment, later, heq, hmatch, rfl⟩)
    · obtain ⟨s, hs, rfl⟩ := List.map_eq_singleton_iff.1 heq
      rw [RelativePath.fileName]
      simpa [hs] using hmatch
    · rwa [(List.cons.inj heq).1]
  · exact fun hmatch => .inr ⟨_, [], rfl, hmatch, rfl⟩

/-! ## Lists -/

namespace IgnoreList

theorem ofRules_cons_eq_ok_iff {rule : String} {rest : List String} {l : IgnoreList} :
    ofRules (rule :: rest) = .ok l ↔ ∃ pattern others, Pattern.ofText rule = .ok pattern ∧
      ofRules rest = .ok others ∧ l = ⟨pattern :: others.patterns⟩ := by
  rw [ofRules]
  constructor
  · intro h
    obtain ⟨pattern, hpattern, h⟩ := ok_of_bind h
    obtain ⟨others, hothers, h⟩ := ok_of_bind h
    cases h
    exact ⟨pattern, others, ok_of_mapError hpattern, hothers, rfl⟩
  · rintro ⟨pattern, others, hpattern, hothers, rfl⟩
    rw [bind_ok (mapError_ok _ hpattern), bind_ok hothers]
    rfl

theorem exists_ofText_of_mem {rules : List String} {l : IgnoreList} (hl : ofRules rules = .ok l)
    {rule : String} (h : rule ∈ rules) : ∃ pattern, Pattern.ofText rule = .ok pattern := by
  induction rules generalizing l with
  | nil => cases h
  | cons first rest ih =>
    obtain ⟨pattern, others, hpattern, hothers, -⟩ := ofRules_cons_eq_ok_iff.1 hl
    rcases List.mem_cons.1 h with rfl | h
    · exact ⟨pattern, hpattern⟩
    · exact ih hothers h

theorem ignores_iff {rules : List String} {l : IgnoreList} (hl : ofRules rules = .ok l)
    (hempty : ∀ rule ∈ rules, [] ∉ parts rule.toList) (p : RelativePath) :
    l.ignores p = true ↔ ∃ rule ∈ rules, RuleApplies rule p := by
  induction rules generalizing l with
  | nil =>
    cases hl
    simp [ignores]
  | cons rule rest ih =>
    obtain ⟨pattern, others, hpattern, hothers, rfl⟩ := ofRules_cons_eq_ok_iff.1 hl
    obtain ⟨hrule, hrest⟩ := List.forall_mem_cons.1 hempty
    have ih := ih hothers hrest
    rw [ignores] at ih ⊢
    rw [List.any_cons, Bool.or_eq_true, Pattern.matches_or_iff hpattern hrule, ih,
      List.exists_mem_cons_iff]

/-- A rule without `/` that is not `**` ignores the paths whose file name its only part matches. -/
theorem ignores_alone_iff {rule : String} {pattern : Pattern}
    (h : Pattern.ofText rule = .ok pattern) (hempty : [] ∉ parts rule.toList)
    (hslash : '/' ∉ rule.toList) (hstar : rule ≠ "**") :
    ∃ part alone, parts rule.toList = [part] ∧ ofRules [rule] = .ok alone ∧
      ∀ p : RelativePath, alone.ignores p = true ↔ MatchesSegment part p.fileName.toList := by
  obtain ⟨part, hparts⟩ := List.length_eq_one_iff.1 (length_parts hslash)
  have hpart : part ≠ doubleStar := by
    rintro rfl
    exact hstar (String.toList_injective (parts_eq_doubleStar_iff.1 hparts))
  have halone : ofRules [rule] = .ok ⟨[pattern]⟩ :=
    ofRules_cons_eq_ok_iff.2 ⟨pattern, {}, h, rfl, rfl⟩
  refine ⟨part, _, hparts, halone, fun p => ?_⟩
  rw [ignores_iff halone (List.forall_mem_singleton.2 hempty),
    ← ruleApplies_iff_of_singleton hparts hpart]
  simp

/-- A list that was read ignores the paths to which one of its rules applies, segment by segment. A
rule in which no `/` and no `**` stands does so for the file names its only part matches. Parts
other than `**` and segments meet one to one, and tokens other than `/` and `**` take no `/` at
all. -/
theorem ignores_by_segments {rules : List String} {l : IgnoreList} (hl : ofRules rules = .ok l)
    (hempty : ∀ rule ∈ rules, [] ∉ parts rule.toList) :
    (∀ p : RelativePath, l.ignores p = true ↔ ∃ rule ∈ rules, RuleApplies rule p) ∧
      (∀ rule ∈ rules, '/' ∉ rule.toList → rule ≠ "**" → ∃ part alone,
        parts rule.toList = [part] ∧ ofRules [rule] = .ok alone ∧
          ∀ p : RelativePath, alone.ignores p = true ↔ MatchesSegment part p.fileName.toList) ∧
      (∀ rule ∈ rules, doubleStar ∉ parts rule.toList → ∀ segments,
        MatchesSegments (parts rule.toList) segments ↔
          List.Forall₂ MatchesSegment (parts rule.toList) segments) ∧
      (∀ tokens : List Token, (∀ t ∈ tokens, t.IsPlain) → ∀ cs, run tokens cs = .success →
        '/' ∉ cs) := by
  refine ⟨ignores_iff hl hempty, fun rule hrule hslash hstar => ?_,
    fun rule _ h _ => matchesSegments_iff_forall₂ h, fun tokens hplain cs h => ?_⟩
  · obtain ⟨pattern, hpattern⟩ := exists_ofText_of_mem hl hrule
    exact ignores_alone_iff hpattern (hempty rule hrule) hslash hstar
  · exact not_mem_of_takes hplain ((run_eq_success_iff (placed_of_isPlain hplain) cs).1 h)

/-- With the rules `src/**/*.cs` and `*.tmp`, sources below `src` and temporary files anywhere are
ignored, sources elsewhere are not. -/
theorem ignores_by_segments_sources : ∃ l, ofRules ["src/**/*.cs", "*.tmp"] = .ok l ∧
    l.ignores ⟨["src", "a", "b", "Main.cs"], by decide, by decide, by decide⟩ = true ∧
    l.ignores ⟨["out", ".x.tmp"], by decide, by decide, by decide⟩ = true ∧
    l.ignores ⟨["other", "src", "Main.cs"], by decide, by decide, by decide⟩ = false := by
  have hl : ofRules ["src/**/*.cs", "*.tmp"] = .ok ⟨[
      ⟨"src/**/*.cs", [.char 's', .char 'r', .char 'c', .char '/', .anyDirectories, .anyRun,
        .char '.', .char 'c', .char 's']⟩,
      ⟨"*.tmp", [.anyRun, .char '.', .char 't', .char 'm', .char 'p']⟩]⟩ := by decide +kernel
  obtain ⟨h, -⟩ := ignores_by_segments hl (by decide +kernel)
  refine ⟨_, hl, (h _).2 (by decide +kernel), (h _).2 (by decide +kernel), ?_⟩
  exact Bool.eq_false_iff.2 (mt (h _).1 (by decide +kernel))

end IgnoreList

end Rebuild
