import Mathlib.Data.List.Chain
import Mathlib.Data.List.Infix
import Rebuild.Glob.Match

/-!
# What matching decides

Matching tries the ways in which tokens may take a text one after the other, and gives up early when
some token finds the text used up. The relation here only says what the ways are. Giving up loses
nothing: what is too short for a token stays too short when more has been left out. With `**` this
holds of whole components only, so it must stand where a component starts.

* `Takes`: the ways in which tokens may take a text.
* `Decides`: an attempt tells whether a text is taken, and what it tells of shorter ones.
* `Decides.skipRun`, `Decides.directories`, `Decides.single`: a case for each kind of token.
* `run_eq_success_iff`: matching succeeds exactly if the tokens take the text.
-/
namespace Rebuild.Glob

/-! ## Ways to take a text -/

/-- What is left of a text when at least one component is left out. -/
def Behind (rest cs : List Char) : Prop := rest = [] ∨ ∃ skipped, cs = skipped ++ '/' :: rest

/-- What is left of a text when any number of whole components is left out. -/
def Later (rest cs : List Char) : Prop := rest = cs ∨ Behind rest cs

/-- Tokens take a text from its start to its end. -/
def Takes : List Token → List Char → Prop
  | [], cs => cs = []
  | .anyRun :: tokens, cs =>
    ∃ skipped rest, cs = skipped ++ rest ∧ '/' ∉ skipped ∧ Takes tokens rest
  | .anyDirectories :: tokens, cs => ∃ rest, Later rest cs ∧ Takes tokens rest
  | t :: tokens, cs => ∃ c rest, cs = c :: rest ∧ t.accepts c = true ∧ Takes tokens rest

/-- A token that takes exactly one character. -/
def Token.IsSingle (t : Token) : Prop := t ≠ .anyRun ∧ t ≠ .anyDirectories

theorem takes_single {t : Token} (ht : t.IsSingle) {tokens : List Token} {cs : List Char} :
    Takes (t :: tokens) cs ↔ ∃ c rest, cs = c :: rest ∧ t.accepts c = true ∧ Takes tokens rest := by
  rw [Takes]
  · exact ht.1
  · exact ht.2

theorem run_single {t : Token} (ht : t.IsSingle) (tokens : List Token) (cs : List Char) :
    run (t :: tokens) cs = match cs with
      | [] => .usedUp
      | c :: cs => if t.accepts c then run tokens cs else .mismatch := by
  cases t with
  | anyRun => exact absurd rfl ht.1
  | anyDirectories => exact absurd rfl ht.2
  | _ => rfl

/-- Only a `/` that stands for itself takes a `/`. -/
theorem Token.accepts_separator (t : Token) : t.accepts '/' = true ↔ t = .char '/' := by
  cases t with
  | char c => rw [accepts, beq_iff_eq, Token.char.injEq, eq_comm]
  | _ => simp [accepts]

theorem behind_cons {rest cs : List Char} {c : Char} :
    Behind rest (c :: cs) ↔ c = '/' ∧ rest = cs ∨ Behind rest cs := by
  constructor
  · rintro (rfl | ⟨skipped, hcs⟩)
    · exact .inr (.inl rfl)
    · cases skipped with
      | nil =>
        obtain ⟨rfl, rfl⟩ := List.cons.inj hcs
        exact .inl ⟨rfl, rfl⟩
      | cons d skipped => exact .inr (.inr ⟨skipped, (List.cons.inj hcs).2⟩)
  · rintro (⟨rfl, rfl⟩ | rfl | ⟨skipped, rfl⟩)
    · exact .inr ⟨[], rfl⟩
    · exact .inl rfl
    · exact .inr ⟨c :: skipped, rfl⟩

theorem Later.refl (cs : List Char) : Later cs cs := .inl rfl

theorem Behind.append {a b : List Char} (h : Behind a b) (skipped : List Char) :
    Behind a (skipped ++ b) := by
  induction skipped with
  | nil => exact h
  | cons c skipped ih => exact behind_cons.2 (.inr ih)

theorem Later.trans {a b c : List Char} (hab : Later a b) (hbc : Later b c) : Later a c := by
  rcases hbc with rfl | rfl | ⟨skipped, rfl⟩
  · exact hab
  · rcases hab with rfl | rfl | ⟨skipped, h⟩
    · exact .inr (.inl rfl)
    · exact .inr (.inl rfl)
    · cases skipped <;> cases h
  · rcases hab with rfl | hab
    · exact .inr (.inr ⟨skipped, rfl⟩)
    · exact .inr ((behind_cons.2 (.inr hab)).append skipped)

theorem Later.isSuffix {rest cs : List Char} (h : Later rest cs) : rest <:+ cs := by
  rcases h with rfl | rfl | ⟨skipped, rfl⟩
  · exact List.suffix_rfl
  · exact List.nil_suffix
  · exact (List.suffix_cons _ _).trans (List.suffix_append _ _)

/-! ## What an attempt tells -/

/-- An attempt tells whether a text is taken. If a token finds it used up, no tail of a certain kind
is taken either. -/
structure Decides (attempt : List Char → Attempt) (taken : List Char → Prop)
    (Tail : List Char → List Char → Prop) : Prop where
  success : ∀ cs, attempt cs = .success → taken cs
  mismatch : ∀ cs, attempt cs = .mismatch → ¬taken cs
  usedUp : ∀ cs, attempt cs = .usedUp → ∀ tail, Tail tail cs → ¬taken tail

variable {attempt : List Char → Attempt} {taken : List Char → Prop}

theorem Decides.later (h : Decides attempt taken (· <:+ ·)) : Decides attempt taken Later where
  success := h.success
  mismatch := h.mismatch
  usedUp cs hcs tail htail := h.usedUp cs hcs tail htail.isSuffix

theorem Decides.success_iff (h : Decides attempt taken Later) (cs : List Char) :
    attempt cs = .success ↔ taken cs := by
  constructor
  · exact h.success cs
  · intro htaken
    cases ha : attempt cs with
    | success => rfl
    | mismatch => exact absurd htaken (h.mismatch cs ha)
    | usedUp => exact absurd htaken (h.usedUp cs ha cs (.refl cs))

theorem Decides.skipRun (h : Decides attempt taken (· <:+ ·)) :
    Decides (skipRun attempt)
      (fun cs => ∃ skipped rest, cs = skipped ++ rest ∧ '/' ∉ skipped ∧ taken rest) (· <:+ ·) where
  success cs := by
    induction cs with
    | nil => exact fun ha => ⟨[], [], rfl, List.not_mem_nil, h.success [] ha⟩
    | cons c cs ih =>
      intro ha
      rw [Glob.skipRun] at ha
      split at ha
      next hm =>
        split at ha
        next => cases ha
        next hc =>
          obtain ⟨skipped, rest, rfl, hskipped, hrest⟩ := ih ha
          exact ⟨c :: skipped, rest, rfl,
            List.not_mem_cons_of_ne_of_not_mem (Ne.symm hc) hskipped, hrest⟩
      next => exact ⟨[], _, rfl, List.not_mem_nil, h.success _ ha⟩
  mismatch cs := by
    induction cs with
    | nil =>
      rintro ha ⟨skipped, rest, hcs, -, hrest⟩
      rw [(List.append_eq_nil_iff.1 hcs.symm).2] at hrest
      exact h.mismatch [] ha hrest
    | cons c cs ih =>
      rintro ha ⟨skipped, rest, hcs, hskipped, hrest⟩
      rw [Glob.skipRun] at ha
      split at ha
      next hm =>
        cases skipped with
        | nil =>
          rw [List.nil_append] at hcs
          exact h.mismatch _ hm (hcs ▸ hrest)
        | cons d skipped =>
          obtain ⟨rfl, rfl⟩ := List.cons.inj hcs
          rw [if_neg (Ne.symm (List.ne_of_not_mem_cons hskipped))] at ha
          exact ih ha ⟨skipped, rest, rfl, List.not_mem_of_not_mem_cons hskipped, hrest⟩
      next hm => exact absurd ha hm
  usedUp cs := by
    induction cs with
    | nil =>
      rintro ha tail htail ⟨skipped, rest, rfl, -, hrest⟩
      exact h.usedUp [] ha rest ((List.suffix_append _ _).trans htail) hrest
    | cons c cs ih =>
      rintro ha tail htail ⟨skipped, rest, rfl, hskipped, hrest⟩
      rw [Glob.skipRun] at ha
      split at ha
      next hm =>
        split at ha
        next => cases ha
        next hc =>
          rcases List.suffix_cons_iff.1 ((List.suffix_append _ _).trans htail) with heq | hsuffix
          · exact h.mismatch _ hm (heq ▸ hrest)
          · exact ih ha rest hsuffix ⟨[], rest, rfl, List.not_mem_nil, hrest⟩
      next => exact h.usedUp _ ha rest ((List.suffix_append _ _).trans htail) hrest

theorem Decides.skipComponents_success_iff (h : Decides attempt taken Later) (cs : List Char) :
    Glob.skipComponents attempt cs = .success ↔ ∃ rest, Behind rest cs ∧ taken rest := by
  induction cs with
  | nil =>
    rw [Glob.skipComponents, h.success_iff]
    constructor
    · exact fun ha => ⟨[], .inl rfl, ha⟩
    · rintro ⟨rest, rfl | ⟨skipped, hcs⟩, hrest⟩
      · exact hrest
      · cases skipped <;> cases hcs
  | cons c cs ih =>
    rw [Glob.skipComponents]
    simp only [behind_cons]
    by_cases hc : c = '/'
    · rw [if_pos hc]
      constructor
      · intro ha
        split at ha
        next =>
          obtain ⟨rest, hrest, htaken⟩ := ih.1 ha
          exact ⟨rest, .inr hrest, htaken⟩
        next => exact ⟨cs, .inl ⟨hc, rfl⟩, h.success cs ha⟩
      · rintro ⟨rest, ⟨-, rfl⟩ | hrest, htaken⟩
        · rw [(h.success_iff rest).2 htaken]
        · cases ha : attempt cs with
          | success => rfl
          | mismatch => exact ih.2 ⟨rest, hrest, htaken⟩
          | usedUp => exact absurd htaken (h.usedUp cs ha rest (.inr hrest))
    · rw [if_neg hc, ih]
      simp only [hc, false_and, false_or]

theorem Decides.directories (h : Decides attempt taken Later) :
    Decides (fun cs => match attempt cs with
        | .mismatch => Glob.skipComponents attempt cs
        | result => result)
      (fun cs => ∃ rest, Later rest cs ∧ taken rest) Later where
  success cs ha := by
    split at ha
    next =>
      obtain ⟨rest, hrest, htaken⟩ := (h.skipComponents_success_iff cs).1 ha
      exact ⟨rest, .inr hrest, htaken⟩
    next => exact ⟨cs, .refl cs, h.success cs ha⟩
  mismatch cs ha := by
    rintro ⟨rest, hrest, htaken⟩
    split at ha
    next hm =>
      rcases hrest with rfl | hrest
      · exact h.mismatch rest hm htaken
      · rw [(h.skipComponents_success_iff cs).2 ⟨rest, hrest, htaken⟩] at ha
        cases ha
    next hm => exact absurd ha hm
  usedUp cs ha tail htail := by
    rintro ⟨rest, hrest, htaken⟩
    split at ha
    next hm =>
      rcases hrest.trans htail with rfl | hrest
      · exact h.mismatch rest hm htaken
      · rw [(h.skipComponents_success_iff cs).2 ⟨rest, hrest, htaken⟩] at ha
        cases ha
    next => exact h.usedUp cs ha rest (hrest.trans htail) htaken

/-- A token for a single character decides whether the first character fits and the others are
taken. After a `/` it is enough that whole components are looked at. -/
theorem Decides.single {t : Token} (h : Decides attempt taken Later)
    (htail : Decides attempt taken (· <:+ ·) ∨ t = .char '/') :
    Decides (fun cs => match cs with
        | [] => .usedUp
        | c :: cs => if t.accepts c then attempt cs else .mismatch)
      (fun cs => ∃ c rest, cs = c :: rest ∧ t.accepts c = true ∧ taken rest) (· <:+ ·) where
  success cs ha := by
    split at ha
    next => cases ha
    next c cs =>
      split at ha
      next hc => exact ⟨c, cs, rfl, hc, h.success cs ha⟩
      next => cases ha
  mismatch cs ha := by
    rintro ⟨c, rest, rfl, hc, htaken⟩
    dsimp only at ha
    rw [if_pos hc] at ha
    exact h.mismatch rest ha htaken
  usedUp cs ha tail hsuffix := by
    rintro ⟨d, rest, rfl, hd, htaken⟩
    split at ha
    next => exact absurd (List.eq_nil_of_suffix_nil hsuffix) (List.cons_ne_nil d rest)
    next c cs =>
      split at ha
      next hc =>
        rcases List.suffix_cons_iff.1 hsuffix with heq | ⟨skipped, rfl⟩
        · obtain ⟨rfl, rfl⟩ := List.cons.inj heq
          exact h.usedUp rest ha rest (.refl rest) htaken
        · rcases htail with htail | rfl
          · exact htail.usedUp _ ha rest
              ((List.suffix_cons d rest).trans (List.suffix_append _ _)) htaken
          · rw [Token.accepts, beq_iff_eq] at hd
            exact h.usedUp _ ha rest (.inr (.inr ⟨skipped, by rw [hd]⟩)) htaken
      next => cases ha

/-! ## Matching -/

/-- Every `**` stands at the start, behind another one or behind a `/`. -/
def Placed (tokens : List Token) : Prop :=
  tokens.IsChain fun a b => b = .anyDirectories → a = .anyDirectories ∨ a = .char '/'

theorem decides_nil : Decides (run []) (Takes []) (· <:+ ·) where
  success cs ha := by
    rw [run] at ha
    split at ha
    next hcs => exact List.isEmpty_iff.1 hcs
    next => cases ha
  mismatch cs ha hcs := by
    cases (hcs : cs = [])
    cases ha
  usedUp cs ha := by
    rw [run] at ha
    split at ha <;> cases ha

/-- Matching decides what the tokens take. If the first is no `**`, nothing shorter is taken either
when the text is used up. -/
theorem decides_run : ∀ {tokens : List Token}, Placed tokens →
    Decides (run tokens) (Takes tokens) Later ∧
      (tokens.head? ≠ some .anyDirectories → Decides (run tokens) (Takes tokens) (· <:+ ·))
  | [], _ => ⟨decides_nil.later, fun _ => decides_nil⟩
  | t :: tokens, h => by
    obtain ⟨hnext, hrest⟩ := List.isChain_cons.1 h
    obtain ⟨hlater, hsuffix⟩ := decides_run hrest
    have hhead (ht : t ≠ .anyDirectories) (hslash : t ≠ .char '/') :
        tokens.head? ≠ some .anyDirectories :=
      fun hd => (hnext _ hd rfl).elim ht hslash
    by_cases hdirectories : t = .anyDirectories
    · subst hdirectories
      exact ⟨hlater.directories, fun h => absurd rfl h⟩
    by_cases hrun : t = .anyRun
    · subst hrun
      have := (hsuffix (hhead nofun nofun)).skipRun
      exact ⟨this.later, fun _ => this⟩
    have hsingle : t.IsSingle := ⟨hrun, hdirectories⟩
    have htail : Decides (run tokens) (Takes tokens) (· <:+ ·) ∨ t = .char '/' := by
      by_cases hslash : t = .char '/'
      · exact .inr hslash
      · exact .inl (hsuffix (hhead hdirectories hslash))
    have := hlater.single htail
    have hrun : run (t :: tokens) = _ := funext (run_single hsingle tokens)
    have htakes : Takes (t :: tokens) = _ := funext fun cs => propext (takes_single hsingle)
    rw [hrun, htakes]
    exact ⟨this.later, fun _ => this⟩

theorem run_eq_success_iff {tokens : List Token} (h : Placed tokens) (cs : List Char) :
    run tokens cs = .success ↔ Takes tokens cs :=
  (decides_run h).1.success_iff cs

end Rebuild.Glob
