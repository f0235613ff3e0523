import Rebuild.Proofs.Glob.Matching
import Rebuild.Proofs.Glob.Parts

/-!
# Matching by segments

A part of a glob matches a single segment of a path, and `**` any number of whole segments, at least
one at the end of a glob. Matching looks at one list of tokens and one text instead, in which
nothing but a `/` of the glob and `**` meets a `/`. The two come to the same as long as no part is
empty.

* `MatchesSegment`, `MatchesSegments`: what parts match.
* `takes_iff_matchesSegment`: inside a segment.
* `cut_separator`, `later_intercalate_iff`: where a text falls into segments.
* `Spells.takes_iff`: tokens take a text exactly if the parts match its segments.
-/
namespace Rebuild.Glob

/-! ## What parts match -/

/-- Whether a character is in an item of a class. -/
def ClassItem.Has (c : Char) : ClassItem → Prop
  | .one d => c = d
  | .range low high => low ≤ c ∧ c ≤ high

/-- Whether a token for a single character stands for the character. -/
def Token.Fits (c : Char) : Token → Prop
  | .char d => c = d
  | .anyChar => True
  | .within items => ∃ item ∈ items, item.Has c
  | .except items => ¬∃ item ∈ items, item.Has c
  | .anyRun | .anyDirectories => False

/-- A part matches a segment: `*` any run of characters, every other token one character. -/
def MatchesSegment : List Token → List Char → Prop
  | [], segment => segment = []
  | .anyRun :: tokens, segment =>
    ∃ skipped rest, segment = skipped ++ rest ∧ MatchesSegment tokens rest
  | t :: tokens, segment => ∃ c rest, segment = c :: rest ∧ t.Fits c ∧ MatchesSegment tokens rest

/-- Parts match segments: `**` before other parts any number of segments, at the end at least one,
and every other part one segment. -/
def MatchesSegments : List (List Token) → List (List Char) → Prop
  | [], segments => segments = []
  | part :: rest, segments =>
    if part = doubleStar then
      if rest = [] then segments ≠ []
      else ∃ skipped later, segments = skipped ++ later ∧ MatchesSegments rest later
    else ∃ segment later, segments = segment :: later ∧ MatchesSegment part segment ∧
      MatchesSegments rest later

theorem matchesSegment_single {t : Token} (ht : t ≠ .anyRun) {tokens : List Token}
    {segment : List Char} : MatchesSegment (t :: tokens) segment ↔
      ∃ c rest, segment = c :: rest ∧ t.Fits c ∧ MatchesSegment tokens rest := by
  rw [MatchesSegment]
  exact ht

theorem exists_append_iff_mem_tails {α : Type} {l : List α} {P : List α → Prop} :
    (∃ skipped rest, l = skipped ++ rest ∧ P rest) ↔ ∃ rest ∈ l.tails, P rest := by
  simp only [List.mem_tails, List.IsSuffix]
  constructor
  · rintro ⟨skipped, rest, rfl, h⟩
    exact ⟨rest, ⟨skipped, rfl⟩, h⟩
  · rintro ⟨rest, ⟨skipped, rfl⟩, h⟩
    exact ⟨skipped, rest, rfl, h⟩

section
variable {part : List Token} {ps : List (List Token)} {segments : List (List Char)}

theorem matchesSegments_cons (h : part ≠ doubleStar) : MatchesSegments (part :: ps) segments ↔
    ∃ segment later, segments = segment :: later ∧ MatchesSegment part segment ∧
      MatchesSegments ps later := by
  rw [MatchesSegments, if_neg h]

theorem matchesSegments_doubleStar : MatchesSegments [doubleStar] segments ↔ segments ≠ [] := by
  rw [MatchesSegments, if_pos rfl, if_pos rfl]

theorem matchesSegments_doubleStar_cons (h : ps ≠ []) :
    MatchesSegments (doubleStar :: ps) segments ↔
      ∃ skipped later, segments = skipped ++ later ∧ MatchesSegments ps later := by
  rw [MatchesSegments, if_pos rfl, if_neg h]

end

instance (c : Char) : (item : ClassItem) → Decidable (item.Has c)
  | .one d => inferInstanceAs (Decidable (c = d))
  | .range low high => inferInstanceAs (Decidable (low ≤ c ∧ c ≤ high))

instance (c : Char) : (t : Token) → Decidable (t.Fits c)
  | .char d => inferInstanceAs (Decidable (c = d))
  | .anyChar => .isTrue trivial
  | .within items => inferInstanceAs (Decidable (∃ item ∈ items, item.Has c))
  | .except items => inferInstanceAs (Decidable (¬∃ item ∈ items, item.Has c))
  | .anyRun | .anyDirectories => .isFalse id

instance decidableMatchesSegment :
    (part : List Token) → (segment : List Char) → Decidable (MatchesSegment part segment)
  | [], segment => inferInstanceAs (Decidable (segment = []))
  | t :: part, segment =>
    have := decidableMatchesSegment part
    if h : t = .anyRun then
      decidable_of_iff (∃ rest ∈ segment.tails, MatchesSegment part rest)
        (by rw [h, MatchesSegment, exists_append_iff_mem_tails])
    else
      match segment with
      | [] => .isFalse (by simp [matchesSegment_single h])
      | c :: rest =>
        decidable_of_iff (t.Fits c ∧ MatchesSegment part rest) (by simp [matchesSegment_single h])

instance decidableMatchesSegments : (ps : List (List Token)) → (segments : List (List Char)) →
    Decidable (MatchesSegments ps segments)
  | [], segments => inferInstanceAs (Decidable (segments = []))
  | part :: ps, segments =>
    have := decidableMatchesSegments ps
    if h : part = doubleStar then
      if hps : ps = [] then
        decidable_of_iff (segments ≠ []) (by rw [h, hps, matchesSegments_doubleStar])
      else
        decidable_of_iff (∃ later ∈ segments.tails, MatchesSegments ps later)
          (by rw [h, matchesSegments_doubleStar_cons hps, exists_append_iff_mem_tails])
    else
      match segments with
      | [] => .isFalse (by simp [matchesSegments_cons h])
      | s :: later =>
        decidable_of_iff (MatchesSegment part s ∧ MatchesSegments ps later)
          (by simp [matchesSegments_cons h])

/-! ## Inside a segment -/

theorem ClassItem.contains_iff (item : ClassItem) (c : Char) :
    item.contains c = true ↔ item.Has c := by
  cases item <;> simp [contains, Has]

theorem Token.accepts_iff_fits (t : Token) {c : Char} (hc : c ≠ '/') :
    t.accepts c = true ↔ t.Fits c := by
  cases t <;> simp [accepts, Fits, hc, ClassItem.contains_iff]

theorem not_mem_of_takes : ∀ {part : List Token}, (∀ t ∈ part, t.IsPlain) → ∀ {cs : List Char},
    Takes part cs → '/' ∉ cs
  | [], _, cs, h => by
    rw [show cs = [] from h]
    exact List.not_mem_nil
  | t :: part, hplain, cs, h => by
    obtain ⟨⟨hdirectories, hslash⟩, hpart⟩ := List.forall_mem_cons.1 hplain
    by_cases hrun : t = .anyRun
    · subst hrun
      obtain ⟨skipped, rest, rfl, hskipped, hrest⟩ := h
      exact fun h => (List.mem_append.1 h).elim hskipped (not_mem_of_takes hpart hrest)
    · obtain ⟨c, rest, rfl, hc, hrest⟩ := (takes_single ⟨hrun, hdirectories⟩).1 h
      refine List.not_mem_cons_of_ne_of_not_mem ?_ (not_mem_of_takes hpart hrest)
      rintro rfl
      exact hslash ((Token.accepts_separator t).1 hc)

theorem takes_iff_matchesSegment : ∀ {part : List Token}, (∀ t ∈ part, t.IsPlain) →
    ∀ {segment : List Char}, '/' ∉ segment → (Takes part segment ↔ MatchesSegment part segment)
  | [], _, _, _ => Iff.rfl
  | t :: part, hplain, segment, hsegment => by
    obtain ⟨⟨hdirectories, -⟩, hpart⟩ := List.forall_mem_cons.1 hplain
    by_cases hrun : t = .anyRun
    · subst hrun
      rw [Takes, MatchesSegment]
      refine exists_congr fun skipped => exists_congr fun rest => and_congr_right ?_
      rintro rfl
      rw [List.mem_append, not_or] at hsegment
      rw [takes_iff_matchesSegment hpart hsegment.2]
      exact and_iff_right hsegment.1
    · rw [takes_single ⟨hrun, hdirectories⟩, matchesSegment_single hrun]
      refine exists_congr fun c => exists_congr fun rest => and_congr_right ?_
      rintro rfl
      rw [t.accepts_iff_fits (Ne.symm (List.ne_of_not_mem_cons hsegment)),
        takes_iff_matchesSegment hpart (List.not_mem_of_not_mem_cons hsegment)]

/-- Tokens without `**` take their share of the text, what follows them the rest. -/
theorem takes_append {tokens : List Token} : ∀ {part : List Token}, (∀ t ∈ part, t.IsPlain) →
    ∀ {cs : List Char}, Takes (part ++ tokens) cs ↔
      ∃ front back, cs = front ++ back ∧ Takes part front ∧ Takes tokens back
  | [], _, cs => by
    constructor
    · exact fun h => ⟨[], cs, rfl, rfl, h⟩
    · rintro ⟨front, back, rfl, hfront, h⟩
      rw [show front = [] from hfront]
      exact h
  | t :: part, hplain, cs => by
    obtain ⟨⟨hdirectories, -⟩, hpart⟩ := List.forall_mem_cons.1 hplain
    rw [List.cons_append]
    by_cases hrun : t = .anyRun
    · subst hrun
      simp only [Takes, takes_append hpart]
      constructor
      · rintro ⟨skipped, -, rfl, hskipped, front, back, rfl, hfront, hback⟩
        exact ⟨skipped ++ front, back, (List.append_assoc ..).symm, ⟨skipped, front, rfl, hskipped,
          hfront⟩, hback⟩
      · rintro ⟨-, back, rfl, ⟨skipped, front, rfl, hskipped, hfront⟩, hback⟩
        exact ⟨skipped, front ++ back, List.append_assoc .., hskipped, front, back, rfl, hfront,
          hback⟩
    · simp only [takes_single ⟨hrun, hdirectories⟩, takes_append hpart]
      constructor
      · rintro ⟨c, -, rfl, hc, front, back, rfl, hfront, hback⟩
        exact ⟨c :: front, back, rfl, ⟨c, front, rfl, hc, hfront⟩, hback⟩
      · rintro ⟨-, back, rfl, ⟨c, front, rfl, hc, hfront⟩, hback⟩
        exact ⟨c, front ++ back, rfl, hc, front, back, rfl, hfront, hback⟩

/-- A part that can do without any character can do with any. -/
theorem matchesSegment_of_takes_nil : ∀ {part : List Token}, (∀ t ∈ part, t.IsPlain) →
    part ≠ [] → Takes part [] → ∀ segment, MatchesSegment part segment
  | [], _, hne, _, _ => absurd rfl hne
  | t :: part, hplain, _, h, segment => by
    obtain ⟨⟨hdirectories, -⟩, hpart⟩ := List.forall_mem_cons.1 hplain
    by_cases hrun : t = .anyRun
    · subst hrun
      obtain ⟨skipped, rest, hnil, -, hrest⟩ := h
      rw [(List.append_eq_nil_iff.1 hnil.symm).2] at hrest
      by_cases hlast : part = []
      · rw [hlast]
        exact ⟨segment, [], (List.append_nil _).symm, rfl⟩
      · exact ⟨[], segment, rfl, matchesSegment_of_takes_nil hpart hlast hrest segment⟩
    · obtain ⟨c, rest, hnil, -⟩ := (takes_single ⟨hrun, hdirectories⟩).1 h
      cases hnil

/-! ## Segments and their text -/

/-- A text can be cut at a `/` only behind its first segment. -/
theorem cut_separator {segment later front back : List Char} (hsegment : '/' ∉ segment)
    (h : segment ++ '/' :: later = front ++ '/' :: back) :
    front = segment ∧ back = later ∨
      ∃ skipped, front = segment ++ '/' :: skipped ∧ later = skipped ++ '/' :: back := by
  rcases List.append_eq_append_iff.1 h with ⟨between, rfl, hcut⟩ | ⟨between, rfl, hcut⟩
  · cases between with
    | nil => exact .inl ⟨List.append_nil _, (List.cons.inj hcut).2.symm⟩
    | cons c skipped =>
      obtain ⟨rfl, hlater⟩ := List.cons.inj hcut
      exact .inr ⟨skipped, rfl, hlater⟩
  · cases between with
    | nil => exact .inl ⟨(List.append_nil _).symm, (List.cons.inj hcut).2⟩
    | cons c skipped =>
      rw [← (List.cons.inj hcut).1] at hsegment
      simp at hsegment

/-- Leaving out components of a text is leaving out segments, or all of it. -/
theorem later_intercalate_iff : ∀ {segments : List (List Char)}, segments ≠ [] →
    (∀ s ∈ segments, '/' ∉ s) → ∀ rest : List Char,
    Later rest (['/'].intercalate segments) ↔ rest = [] ∨
      ∃ skipped later, segments = skipped ++ later ∧ later ≠ [] ∧ rest = ['/'].intercalate later
  | [], hne, _, _ => absurd rfl hne
  | [s], _, hs, rest => by
    rw [List.intercalate_singleton]
    constructor
    · rintro (rfl | rfl | ⟨skipped, rfl⟩)
      · exact .inr ⟨[], [rest], rfl, List.cons_ne_nil _ _, (List.intercalate_singleton ..).symm⟩
      · exact .inl rfl
      · simp at hs
    · rintro (rfl | ⟨skipped, later, heq, hlater, rfl⟩)
      · exact .inr (.inl rfl)
      · rcases List.singleton_eq_append_iff.1 heq with ⟨-, rfl⟩ | ⟨-, rfl⟩
        · exact .inl (List.intercalate_singleton ..)
        · exact absurd rfl hlater
  | s :: s' :: segments, _, hs, rest => by
    obtain ⟨hsegment, hsegments⟩ := List.forall_mem_cons.1 hs
    have ih := later_intercalate_iff (List.cons_ne_nil s' segments) hsegments rest
    rw [List.intercalate_cons_cons, List.append_assoc, List.singleton_append]
    constructor
    · rintro (rfl | rfl | ⟨skipped, hcut⟩)
      · refine .inr ⟨[], _, rfl, List.cons_ne_nil _ _, ?_⟩
        rw [List.intercalate_cons_cons, List.append_assoc, List.singleton_append]
      · exact .inl rfl
      · have hlater : Later rest (['/'].intercalate (s' :: segments)) := by
          rcases cut_separator hsegment hcut with ⟨-, rfl⟩ | ⟨skipped, -, hskipped⟩
          · exact .refl _
          · exact .inr (.inr ⟨skipped, hskipped⟩)
        rcases ih.1 hlater with hnil | ⟨skipped, later, heq, hlater, hrest⟩
        · exact .inl hnil
        · exact .inr ⟨s :: skipped, later, congrArg (s :: ·) heq, hlater, hrest⟩
    · rintro (rfl | ⟨skipped, later, heq, hlater, hrest⟩)
      · exact .inr (.inl rfl)
      · cases skipped with
        | nil =>
          refine .inl ?_
          rw [hrest, ← show _ = later from heq, List.intercalate_cons_cons, List.append_assoc,
            List.singleton_append]
        | cons _ skipped =>
          have := ih.2 (.inr ⟨skipped, later, (List.cons.inj heq).2, hlater, hrest⟩)
          exact this.trans (.inr (.inr ⟨s, rfl⟩))

/-! ## Matching by segments -/

theorem not_matchesSegments_nil : ∀ {ps : List (List Token)}, ps ≠ [] → ¬MatchesSegments ps []
  | [], hne => absurd rfl hne
  | part :: rest, _ => by
    by_cases hpart : part = doubleStar
    · subst hpart
      by_cases hrest : rest = []
      · rw [hrest, matchesSegments_doubleStar]
        exact fun h => h rfl
      · rw [matchesSegments_doubleStar_cons hrest]
        rintro ⟨skipped, later, hnil, h⟩
        rw [(List.append_eq_nil_iff.1 hnil.symm).2] at h
        exact not_matchesSegments_nil hrest h
    · rw [matchesSegments_cons hpart]
      rintro ⟨segment, later, hnil, -⟩
      cases hnil

theorem matchesSegments_iff_forall₂ : ∀ {ps : List (List Token)} {segments : List (List Char)},
    doubleStar ∉ ps → (MatchesSegments ps segments ↔ List.Forall₂ MatchesSegment ps segments)
  | [], segments, _ => List.forall₂_nil_left_iff.symm
  | part :: ps, segments, h => by
    rw [matchesSegments_cons (Ne.symm (List.ne_of_not_mem_cons h)), List.forall₂_cons_left_iff]
    constructor
    · rintro ⟨segment, later, rfl, hpart, hps⟩
      exact ⟨segment, later, hpart,
        (matchesSegments_iff_forall₂ (List.not_mem_of_not_mem_cons h)).1 hps, rfl⟩
    · rintro ⟨segment, later, hpart, hps, rfl⟩
      exact ⟨segment, later, rfl, hpart,
        (matchesSegments_iff_forall₂ (List.not_mem_of_not_mem_cons h)).2 hps⟩

theorem takes_separator {tokens : List Token} {cs : List Char} :
    Takes (.char '/' :: tokens) cs ↔ ∃ rest, cs = '/' :: rest ∧ Takes tokens rest := by
  rw [takes_single (t := .char '/') ⟨nofun, nofun⟩]
  simp only [Token.accepts, beq_iff_eq]
  constructor
  · rintro ⟨_, rest, rfl, rfl, h⟩
    exact ⟨rest, rfl, h⟩
  · rintro ⟨rest, rfl, h⟩
    exact ⟨'/', rest, rfl, rfl, h⟩

theorem eq_nil_of_later_nil {rest : List Char} (h : Later rest []) : rest = [] :=
  List.eq_nil_of_suffix_nil h.isSuffix

/-- Parts that can do without any text match a single segment, whatever it is. -/
theorem Spells.matchesSegments_singleton {ps : List (List Token)} {tokens : List Token}
    (h : Spells ps tokens) (hplain : ∀ part ∈ ps, ∀ t ∈ part, t.IsPlain) (hempty : [] ∉ ps)
    (hnil : Takes tokens []) (s : List Char) : MatchesSegments ps [s] := by
  induction h with
  | last hpart =>
    rw [matchesSegments_cons hpart]
    exact ⟨s, [], rfl, matchesSegment_of_takes_nil (List.forall_mem_singleton.1 hplain)
      (Ne.symm (List.ne_of_not_mem_cons hempty)) hnil s, rfl⟩
  | lastAny => exact matchesSegments_doubleStar.2 (List.cons_ne_nil _ _)
  | part _ _ _ =>
    obtain ⟨front, back, heq, -, hback⟩ := (takes_append (List.forall_mem_cons.1 hplain).1).1 hnil
    obtain ⟨rest, rfl, -⟩ := takes_separator.1 hback
    cases (List.append_eq_nil_iff.1 heq.symm).2
  | any hspells ih =>
    obtain ⟨rest, hlater, hrest⟩ := hnil
    rw [eq_nil_of_later_nil hlater] at hrest
    rw [matchesSegments_doubleStar_cons hspells.ne_nil]
    exact ⟨[], [s], rfl,
      ih (List.forall_mem_cons.1 hplain).2 (List.not_mem_of_not_mem_cons hempty) hrest⟩
  | anyAgain hspells ih =>
    rw [matchesSegments_doubleStar_cons hspells.ne_nil]
    exact ⟨[], [s], rfl,
      ih (List.forall_mem_cons.1 hplain).2 (List.not_mem_of_not_mem_cons hempty) hnil⟩

theorem placed_of_isPlain {tokens : List Token} (h : ∀ t ∈ tokens, t.IsPlain) : Placed tokens :=
  (List.pairwise_of_forall_mem_list fun _ _ t ht hd => absurd hd (h t ht).1).isChain

theorem Spells.placed {ps : List (List Token)} {tokens : List Token} (h : Spells ps tokens)
    (hplain : ∀ part ∈ ps, ∀ t ∈ part, t.IsPlain) : Placed tokens := by
  induction h with
  | last _ => exact placed_of_isPlain (List.forall_mem_singleton.1 hplain)
  | lastAny => exact List.isChain_singleton _
  | part _ _ ih =>
    obtain ⟨hpart, hrest⟩ := List.forall_mem_cons.1 hplain
    refine List.isChain_append.2 ⟨placed_of_isPlain hpart, ?_, ?_⟩
    · exact List.isChain_cons.2 ⟨fun _ _ _ => .inr rfl, ih hrest⟩
    rintro _ _ _ hhead hd
    cases hhead
    cases hd
  | any _ ih =>
    exact List.isChain_cons.2 ⟨fun _ _ _ => .inl rfl, ih (List.forall_mem_cons.1 hplain).2⟩
  | anyAgain _ ih => exact ih (List.forall_mem_cons.1 hplain).2

/-- What follows a `**` is taken somewhere in a text exactly if it is taken from one of its segments
on. -/
theorem Spells.exists_later_iff {ps : List (List Token)} {tokens : List Token}
    (h : Spells ps tokens) (hplain : ∀ part ∈ ps, ∀ t ∈ part, t.IsPlain) (hempty : [] ∉ ps)
    {segments : List (List Char)} (hne : segments ≠ []) (hs : ∀ s ∈ segments, '/' ∉ s)
    (ih : ∀ {later : List (List Char)}, later ≠ [] → (∀ s ∈ later, '/' ∉ s) →
      (Takes tokens (['/'].intercalate later) ↔ MatchesSegments ps later)) :
    (∃ rest, Later rest (['/'].intercalate segments) ∧ Takes tokens rest) ↔
      MatchesSegments (doubleStar :: ps) segments := by
  rw [matchesSegments_doubleStar_cons h.ne_nil]
  constructor
  · rintro ⟨rest, hlater, hrest⟩
    rcases (later_intercalate_iff hne hs rest).1 hlater with rfl | ⟨skipped, later, rfl, hne, rfl⟩
    · -- nothing left suits `ps`, so the last segment does
      exact ⟨segments.dropLast, [segments.getLast hne], (List.dropLast_append_getLast hne).symm,
        h.matchesSegments_singleton hplain hempty hrest _⟩
    · exact ⟨skipped, later, rfl,
        (ih hne fun s hmem => hs s (List.mem_append_right _ hmem)).1 hrest⟩
  · rintro ⟨skipped, later, rfl, hmatch⟩
    have hlater : later ≠ [] := by
      rintro rfl
      exact not_matchesSegments_nil h.ne_nil hmatch
    exact ⟨_, (later_intercalate_iff hne hs _).2 (.inr ⟨skipped, later, rfl, hlater, rfl⟩),
      (ih hlater fun s hmem => hs s (List.mem_append_right _ hmem)).2 hmatch⟩

theorem Spells.takes_iff {ps : List (List Token)} {tokens : List Token} (h : Spells ps tokens)
    (hplain : ∀ part ∈ ps, ∀ t ∈ part, t.IsPlain) (hempty : [] ∉ ps)
    {segments : List (List Char)} (hne : segments ≠ []) (hs : ∀ s ∈ segments, '/' ∉ s) :
    Takes tokens (['/'].intercalate segments) ↔ MatchesSegments ps segments := by
  -- one case for each way of spelling; `**` may hold any tail of the segments
  induction h generalizing segments with
  | @last part hpart =>
    have hplain := List.forall_mem_singleton.1 hplain
    rw [matchesSegments_cons hpart]
    constructor
    · intro htakes
      match segments, hne, hs, htakes with
      | [s], _, hs, htakes =>
        rw [List.intercalate_singleton] at htakes
        exact ⟨s, [], rfl,
          (takes_iff_matchesSegment hplain (hs s (List.mem_singleton_self s))).1 htakes, rfl⟩
      | s :: s' :: later, _, _, htakes =>
        rw [List.intercalate_cons_cons] at htakes
        exact absurd (by simp) (not_mem_of_takes hplain htakes)
    · rintro ⟨s, later, rfl, hmatch, hnil⟩
      rw [show later = [] from hnil] at hs ⊢
      rw [List.intercalate_singleton]
      exact (takes_iff_matchesSegment hplain (hs s (List.mem_singleton_self s))).2 hmatch
  | lastAny =>
    rw [matchesSegments_doubleStar]
    exact ⟨fun _ => hne, fun _ => ⟨[], .inr (.inl rfl), rfl⟩⟩
  | @part part rest tokens hpart hspells ih =>
    obtain ⟨hplain, hrest⟩ := List.forall_mem_cons.1 hplain
    have hempty := List.not_mem_of_not_mem_cons hempty
    rw [matchesSegments_cons hpart, takes_append hplain]
    constructor
    · rintro ⟨front, back, heq, hfront, hback⟩
      obtain ⟨back, rfl, htakes⟩ := takes_separator.1 hback
      have hfree := not_mem_of_takes hplain hfront
      match segments, hne, hs, heq with
      | [s], _, hs, heq =>
        rw [List.intercalate_singleton] at heq
        exact absurd (by simp [heq]) (hs s (List.mem_singleton_self s))
      | s :: s' :: later, _, hs, heq =>
        obtain ⟨hsegment, hlater⟩ := List.forall_mem_cons.1 hs
        rw [List.intercalate_cons_cons, List.append_assoc, List.singleton_append] at heq
        obtain ⟨rfl, rfl⟩ : front = s ∧ back = _ := (cut_separator hsegment heq).resolve_right
          fun ⟨skipped, hfront, _⟩ => hfree (by simp [hfront])
        exact ⟨_, _, rfl, (takes_iff_matchesSegment hplain hfree).1 hfront,
          (ih hrest hempty (List.cons_ne_nil _ _) hlater).1 htakes⟩
    · rintro ⟨s, later, rfl, hmatch, hlater⟩
      obtain ⟨hsegment, hs⟩ := List.forall_mem_cons.1 hs
      match later, hlater, hs with
      | [], hlater, _ => exact absurd hlater (not_matchesSegments_nil hspells.ne_nil)
      | s' :: later, hlater, hs =>
        rw [List.intercalate_cons_cons, List.append_assoc, List.singleton_append]
        exact ⟨s, _, rfl, (takes_iff_matchesSegment hplain hsegment).2 hmatch,
          takes_separator.2 ⟨_, rfl, (ih hrest hempty (List.cons_ne_nil _ _) hs).2 hlater⟩⟩
  | any hspells ih =>
    obtain ⟨-, hrest⟩ := List.forall_mem_cons.1 hplain
    have hempty := List.not_mem_of_not_mem_cons hempty
    exact hspells.exists_later_iff hrest hempty hne hs (ih hrest hempty)
  | anyAgain hspells ih =>
    obtain ⟨-, hrest⟩ := List.forall_mem_cons.1 hplain
    have hempty := List.not_mem_of_not_mem_cons hempty
    rw [← hspells.exists_later_iff hrest hempty hne hs (ih hrest hempty)]
    constructor
    · exact fun h => ⟨_, .refl _, h⟩
    · rintro ⟨rest, hlater, rest', hlater', h⟩
      exact ⟨rest', hlater'.trans hlater, h⟩

end Rebuild.Glob
