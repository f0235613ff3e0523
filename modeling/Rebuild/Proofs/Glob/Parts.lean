import Rebuild.Glob.Pattern

/-!
# The parts of a glob

A glob can be read part by part, its parts being separated by `/`. What is kept of it is one list of
tokens, in which a `**` has swallowed the `/` behind it and a `**` right behind another one.

* `parts`: the parts of a glob, each with its own tokens.
* `parts_eq_doubleStar_iff`, `length_parts`: globs that have only one part.
* `Spells`: how a list of tokens writes parts down.
* `Reads`: what has been read from some position on; one lemma for each kind of character.
* `spells_of_parse`: the tokens of a glob spell its parts.
-/
namespace Rebuild.Glob

/-! ## Parts -/

/-- Puts a token in front of the first part. -/
def pushToken (t : Token) : List (List Token) → List (List Token)
  | [] => [[t]]
  | part :: rest => (t :: part) :: rest

/-- The parts of a rule, from one `/` to the next. A `/` in a class separates nothing. -/
def parts : List Char → List (List Token)
  | [] => [[]]
  | c :: rest =>
    if c = '/' then [] :: parts rest
    else if c = '?' then pushToken .anyChar (parts rest)
    else if c = '*' then pushToken .anyRun (parts rest)
    else if c = '[' then
      match _h : takeClass rest with
      | none => pushToken (.char c) (parts rest)
      | some (token, _, after) => pushToken token (parts after)
    else pushToken (.char c) (parts rest)
  termination_by cs => cs.length
  decreasing_by
    all_goals simp only [List.length_cons]
    all_goals try omega
    have := length_takeClass _h
    omega

theorem parts_separator (rest : List Char) : parts ('/' :: rest) = [] :: parts rest := by
  rw [parts, if_pos rfl]

theorem parts_star (rest : List Char) : parts ('*' :: rest) = pushToken .anyRun (parts rest) := by
  rw [parts, if_neg (by decide), if_neg (by decide), if_pos rfl]

/-- The part `**`. -/
def doubleStar : List Token := [.anyRun, .anyRun]

theorem parts_doubleStar_cons (rest : List Char) :
    parts ('*' :: '*' :: '/' :: rest) = doubleStar :: parts rest := by
  rw [parts_star, parts_star, parts_separator]
  rfl

theorem parts_doubleStar : parts ['*', '*'] = [doubleStar] := by
  rw [parts_star, parts_star, parts]
  rfl

/-! ## The tokens of parts -/

/-- A token that parts are made of. -/
def Token.IsPlain (t : Token) : Prop := t ≠ .anyDirectories ∧ t ≠ .char '/'

theorem takeClass_token {cs after : List Char} {t : Token} {width : Nat}
    (h : takeClass cs = some (t, width, after)) :
    (∃ items, t = .within items) ∨ ∃ items, t = .except items := by
  unfold takeClass closeClass at h
  split at h
  · split at h
    · cases h
    · cases h
      exact .inr ⟨_, rfl⟩
  · split at h
    · cases h
    · split at h
      · cases h
      · cases h
        exact .inl ⟨_, rfl⟩
  · cases h

theorem isPlain_of_takeClass {cs after : List Char} {t : Token} {width : Nat}
    (h : takeClass cs = some (t, width, after)) : t.IsPlain ∧ t ≠ .anyRun := by
  rcases takeClass_token h with ⟨items, rfl⟩ | ⟨items, rfl⟩
  · exact ⟨⟨nofun, nofun⟩, nofun⟩
  · exact ⟨⟨nofun, nofun⟩, nofun⟩

theorem pushToken_ne_nil (t : Token) (ps : List (List Token)) : pushToken t ps ≠ [] := by
  cases ps <;> exact List.cons_ne_nil _ _

theorem parts_ne_nil (cs : List Char) : parts cs ≠ [] := by
  rw [parts.eq_def]
  split
  · exact List.cons_ne_nil _ _
  · split
    · exact List.cons_ne_nil _ _
    · repeat' split
      all_goals exact pushToken_ne_nil _ _

theorem isPlain_pushToken {t : Token} {ps : List (List Token)} (ht : t.IsPlain)
    (h : ∀ part ∈ ps, ∀ u ∈ part, u.IsPlain) : ∀ part ∈ pushToken t ps, ∀ u ∈ part, u.IsPlain := by
  cases ps with
  | nil => simpa [pushToken] using ht
  | cons part rest =>
    obtain ⟨hpart, hrest⟩ := List.forall_mem_cons.1 h
    exact List.forall_mem_cons.2 ⟨List.forall_mem_cons.2 ⟨ht, hpart⟩, hrest⟩

theorem isPlain_of_mem_parts (cs : List Char) : ∀ part ∈ parts cs, ∀ t ∈ part, t.IsPlain := by
  fun_induction parts cs with
  | case1 => simp
  | case2 rest ih => exact List.forall_mem_cons.2 ⟨fun _ h => absurd h List.not_mem_nil, ih⟩
  | case3 rest _ ih => exact isPlain_pushToken ⟨nofun, nofun⟩ ih
  | case4 rest _ _ ih => exact isPlain_pushToken ⟨nofun, nofun⟩ ih
  | case5 rest _ _ _ _ ih =>
    exact isPlain_pushToken ⟨nofun, nofun⟩ ih
  | case6 rest token width after hclass _ _ _ ih =>
    exact isPlain_pushToken (isPlain_of_takeClass hclass).1 ih
  | case7 c rest hslash hany hrun hc ih =>
    exact isPlain_pushToken ⟨nofun, fun h => hslash (Token.char.inj h)⟩ ih

theorem head?_pushToken_ne {t : Token} (ht : t ≠ .anyRun) (ps : List (List Token))
    {part : List Token} : (pushToken t ps).head? ≠ some (.anyRun :: part) := by
  intro h
  cases ps <;> exact ht (List.cons.inj (Option.some.inj h)).1

theorem eq_cons_of_head?_parts {cs : List Char} {part : List Token}
    (h : (parts cs).head? = some (.anyRun :: part)) : ∃ rest, cs = '*' :: rest := by
  rw [parts.eq_def] at h
  split at h
  · cases h
  next c rest =>
    split at h
    · cases h
    · split at h
      · exact (head?_pushToken_ne (by simp) _ h).elim
      · split at h
        next hc => exact ⟨rest, by rw [hc]⟩
        next =>
          split at h
          · split at h
            · exact (head?_pushToken_ne (by simp) _ h).elim
            next hclass => exact absurd h (head?_pushToken_ne (isPlain_of_takeClass hclass).2 _)
          · exact (head?_pushToken_ne (by simp) _ h).elim

theorem pushToken_eq_singleton {t u : Token} {ps : List (List Token)} {part : List Token}
    (hps : ps ≠ []) (h : pushToken t ps = [u :: part]) : t = u ∧ ps = [part] := by
  cases ps with
  | nil => exact absurd rfl hps
  | cons first rest =>
    obtain ⟨hfirst, rfl⟩ := List.cons.inj h
    obtain ⟨rfl, rfl⟩ := List.cons.inj hfirst
    exact ⟨rfl, rfl⟩

theorem eq_nil_of_parts {cs : List Char} (h : parts cs = [[]]) : cs = [] := by
  have hpush {t : Token} {ps : List (List Token)} : pushToken t ps ≠ [[]] := by
    intro h
    cases ps <;> cases (List.cons.inj h).1
  rw [parts.eq_def] at h
  split at h
  · rfl
  · split at h
    · exact absurd (List.cons.inj h).2 (parts_ne_nil _)
    · repeat' split at h
      all_goals exact absurd h hpush

theorem parts_eq_doubleStar_iff {cs : List Char} : parts cs = [doubleStar] ↔ cs = ['*', '*'] := by
  constructor
  · intro h
    obtain ⟨rest, rfl⟩ := eq_cons_of_head?_parts (congrArg List.head? h)
    rw [parts_star] at h
    have h := (pushToken_eq_singleton (parts_ne_nil rest) h).2
    obtain ⟨rest, rfl⟩ := eq_cons_of_head?_parts (congrArg List.head? h)
    rw [parts_star] at h
    rw [eq_nil_of_parts (pushToken_eq_singleton (parts_ne_nil rest) h).2]
  · rintro rfl
    exact parts_doubleStar

theorem closeClass_suffix {token : List ClassItem → Token} {extra : Nat} {first : Char}
    {cs after : List Char} {t : Token} {width : Nat}
    (h : closeClass token extra first cs = some (t, width, after)) : after <:+ cs := by
  unfold closeClass at h
  split at h
  · cases h
  next c rest hd =>
    cases h
    exact (List.suffix_cons c _).trans (hd ▸ List.dropWhile_suffix _)

theorem takeClass_suffix {cs after : List Char} {t : Token} {width : Nat}
    (h : takeClass cs = some (t, width, after)) : after <:+ cs := by
  unfold takeClass at h
  split at h
  · exact ((closeClass_suffix h).trans (List.suffix_cons _ _)).trans (List.suffix_cons _ _)
  · split at h
    · cases h
    · exact (closeClass_suffix h).trans (List.suffix_cons _ _)
  · cases h

theorem length_parts {cs : List Char} (h : '/' ∉ cs) : (parts cs).length = 1 := by
  have hpush {t : Token} {ps : List (List Token)} (h : ps.length = 1) :
      (pushToken t ps).length = 1 := by
    obtain ⟨part, rfl⟩ := List.length_eq_one_iff.1 h
    rfl
  fun_induction parts cs with
  | case1 => rfl
  | case2 => exact absurd (List.mem_cons_self ..) h
  | case3 _ _ ih | case4 _ _ _ ih | case5 _ _ _ _ _ ih | case7 _ _ _ _ _ _ ih =>
    exact hpush (ih (List.not_mem_of_not_mem_cons h))
  | case6 rest token width after hclass _ _ _ ih =>
    exact hpush (ih fun hmem =>
      h (List.mem_cons_of_mem _ ((takeClass_suffix hclass).subset hmem)))

/-! ## What is read -/

/-- Tokens spell the parts of a rule: a `/` between parts, one `**` for several that stand in a row,
and no `/` behind it. -/
inductive Spells : List (List Token) → List Token → Prop
  | last {part : List Token} : part ≠ doubleStar → Spells [part] part
  | lastAny : Spells [doubleStar] [.anyDirectories]
  | part {part : List Token} {rest : List (List Token)} {tokens : List Token} :
      part ≠ doubleStar → Spells rest tokens → Spells (part :: rest) (part ++ .char '/' :: tokens)
  | any {rest : List (List Token)} {tokens : List Token} :
      Spells rest tokens → Spells (doubleStar :: rest) (.anyDirectories :: tokens)
  | anyAgain {rest : List (List Token)} {tokens : List Token} :
      Spells rest (.anyDirectories :: tokens) →
      Spells (doubleStar :: rest) (.anyDirectories :: tokens)

theorem Spells.push {t : Token} {ps : List (List Token)} {tokens : List Token}
    (h : Spells ps tokens) (hps : ps.head? ≠ some doubleStar)
    (ht : (pushToken t ps).head? ≠ some doubleStar) : Spells (pushToken t ps) (t :: tokens) := by
  cases h with
  | last hpart => exact .last fun h => ht (congrArg some h)
  | lastAny => exact absurd rfl hps
  | part hpart hrest => exact .part (fun h => ht (congrArg some h)) hrest
  | any hrest => exact absurd rfl hps
  | anyAgain hrest => exact absurd rfl hps

theorem Spells.ne_nil {ps : List (List Token)} {tokens : List Token} (h : Spells ps tokens) :
    ps ≠ [] := by
  cases h <;> exact List.cons_ne_nil _ _

/-- A part starts here. -/
def AtStart (before : Option Char) : Prop := before = none ∨ before = some '/'

theorem not_atStart {c : Char} (hc : c ≠ '/') : ¬AtStart (some c) :=
  fun h => h.elim nofun fun h => hc (Option.some.inj h)

/-- What has been read from some position on: it spells the parts from there, if need be together
with the `**` in front of it. -/
def Reads (before : Option Char) (tokens : List Token) (cs : List Char) (more : List Token) :
    Prop :=
  (Spells (parts cs) more ∧ (¬AtStart before → (parts cs).head? ≠ some doubleStar)) ∨
    tokens.head? = some .anyDirectories ∧ AtStart before ∧
      Spells (parts cs) (.anyDirectories :: more)

section
variable {before before' : Option Char} {tokens more : List Token} {cs rest : List Char}

theorem Reads.token {t : Token} (h : Reads before' (t :: tokens) rest more)
    (hbefore : ¬AtStart before') (ht : t ≠ .anyDirectories)
    (hcs : parts cs = pushToken t (parts rest))
    (hhead : (pushToken t (parts rest)).head? ≠ some doubleStar) :
    Reads before tokens cs (t :: more) := by
  rcases h with ⟨hspells, hrest⟩ | ⟨hdirectories, -⟩
  · refine .inl ⟨?_, fun _ => ?_⟩
    · rw [hcs]
      exact hspells.push (hrest hbefore) hhead
    · rw [hcs]
      exact hhead
  · exact absurd (Option.some.inj hdirectories) ht

theorem Reads.separator (h : Reads before' (.char '/' :: tokens) rest more) :
    Reads before tokens ('/' :: rest) (.char '/' :: more) := by
  rcases h with ⟨hspells, -⟩ | ⟨hdirectories, -⟩
  · rw [Reads, parts_separator]
    exact .inl ⟨Spells.part (List.cons_ne_nil _ _).symm hspells, fun _ => nofun⟩
  · cases hdirectories

theorem pushDirectories_cases (tokens : List Token) :
    pushDirectories tokens = .anyDirectories :: tokens ∨
      pushDirectories tokens = tokens ∧ tokens.head? = some .anyDirectories := by
  unfold pushDirectories
  split
  · exact .inr ⟨rfl, rfl⟩
  · exact .inl rfl

theorem Reads.doubleStar_cons (hbefore : AtStart before)
    (h : Reads before' (pushDirectories tokens) rest more) :
    ∃ more', (pushDirectories tokens).reverse ++ more = tokens.reverse ++ more' ∧
      Reads before tokens ('*' :: '*' :: '/' :: rest) more' := by
  have hany : Spells (parts ('*' :: '*' :: '/' :: rest)) (.anyDirectories :: more) := by
    rw [parts_doubleStar_cons]
    rcases h with ⟨hspells, -⟩ | ⟨-, -, hspells⟩
    · exact .any hspells
    · exact .anyAgain hspells
  rcases pushDirectories_cases tokens with hpush | ⟨hpush, hhead⟩
  · rw [hpush, List.reverse_cons, List.append_assoc]
    exact ⟨_, rfl, .inl ⟨hany, fun h => absurd hbefore h⟩⟩
  · rw [hpush]
    exact ⟨more, rfl, .inr ⟨hhead, hbefore, hany⟩⟩

theorem Reads.doubleStar_end (hbefore : AtStart before) (tokens : List Token) :
    ∃ more, (pushDirectories tokens).reverse = tokens.reverse ++ more ∧
      Reads before tokens ['*', '*'] more := by
  have hany : Spells (parts ['*', '*']) [.anyDirectories] := parts_doubleStar ▸ .lastAny
  rcases pushDirectories_cases tokens with hpush | ⟨hpush, hhead⟩
  · rw [hpush, List.reverse_cons]
    exact ⟨_, rfl, .inl ⟨hany, fun h => absurd hbefore h⟩⟩
  · rw [hpush]
    exact ⟨[], (List.append_nil _).symm, .inr ⟨hhead, hbefore, hany⟩⟩

end

/-- What is read behind the tokens at hand spells the parts of the rest. -/
theorem reads_of_parseFrom {position : Nat} {before : Option Char} {tokens result : List Token}
    {cs : List Char} (h : parseFrom position before tokens cs = .ok result) :
    ∃ more, result = tokens.reverse ++ more ∧ Reads before tokens cs more := by
  have hcons {t : Token} {tokens : List Token} {more : List Token} :
      (t :: tokens).reverse ++ more = tokens.reverse ++ t :: more := by simp
  fun_induction parseFrom position before tokens cs with
  | case1 =>
    cases h
    refine ⟨[], (List.append_nil _).symm, .inl ?_⟩
    rw [parts]
    exact ⟨.last nofun, fun _ => nofun⟩
  | case2 _ _ _ rest ih =>
    obtain ⟨more, rfl, hread⟩ := ih h
    have hcs : parts ('?' :: rest) = pushToken .anyChar (parts rest) := by
      rw [parts, if_neg (by decide), if_pos rfl]
    exact ⟨_, hcons,
      hread.token (not_atStart (by decide)) nofun hcs (head?_pushToken_ne (by simp) _)⟩
  | case3 => cases h
  | case4 _ _ tokens hbefore =>
    cases h
    exact Reads.doubleStar_end hbefore tokens
  | case5 _ _ tokens hbefore rest _ _ ih =>
    obtain ⟨more, rfl, hread⟩ := ih h
    exact hread.doubleStar_cons hbefore
  | case6 => cases h
  | case7 => cases h
  | case8 _ _ _ rest _ hstar _ ih =>
    obtain ⟨more, rfl, hread⟩ := ih h
    have hhead : (pushToken .anyRun (parts rest)).head? ≠ some doubleStar := by
      intro h
      cases hparts : parts rest with
      | nil => exact parts_ne_nil rest hparts
      | cons part ps =>
        rw [hparts] at h
        cases (List.cons.inj (Option.some.inj h)).2
        obtain ⟨_, heq⟩ := eq_cons_of_head?_parts (congrArg List.head? hparts)
        exact hstar _ heq
    exact ⟨_, hcons, hread.token (not_atStart (by decide)) nofun (parts_star rest) hhead⟩
  | case9 => cases h
  | case10 _ _ _ rest token width after hclass _ _ ih =>
    obtain ⟨more, rfl, hread⟩ := ih h
    obtain ⟨⟨hdirectories, -⟩, hrun⟩ := isPlain_of_takeClass hclass
    have hcs : parts ('[' :: rest) = pushToken token (parts after) := by
      rw [parts, if_neg (by decide), if_neg (by decide), if_neg (by decide), if_pos rfl]
      split
      next hnone => rw [hnone] at hclass; cases hclass
      next hsome => rw [hsome] at hclass; cases hclass; rfl
    exact ⟨_, hcons,
      hread.token (not_atStart (by decide)) hdirectories hcs (head?_pushToken_ne hrun _)⟩
  | case11 _ _ _ c rest hany hstar hclass ih =>
    obtain ⟨more, rfl, hread⟩ := ih h
    by_cases hslash : c = '/'
    · subst hslash
      exact ⟨_, hcons, hread.separator⟩
    · have hcs : parts (c :: rest) = pushToken (.char c) (parts rest) := by
        rw [parts, if_neg hslash, if_neg hany, if_neg hstar, if_neg hclass]
      exact ⟨_, hcons, hread.token (not_atStart hslash) nofun hcs (head?_pushToken_ne (by simp) _)⟩

/-- The tokens of a rule spell its parts. -/
theorem spells_of_parse {rule : String} {tokens : List Token} (h : parse rule = .ok tokens) :
    Spells (parts rule.toList) tokens := by
  obtain ⟨more, rfl, ⟨hspells, -⟩ | ⟨hnone, -⟩⟩ := reads_of_parseFrom h
  · exact hspells
  · cases hnone

end Rebuild.Glob
