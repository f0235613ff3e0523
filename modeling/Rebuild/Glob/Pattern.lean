import Rebuild.Text.Quoted

/-!
# Glob patterns

A pattern is a list of tokens: `?`, `*`, bracketed classes, whole components `**`, and characters
that stand for themselves. `**` must fill a component of its own; one that follows another directly
adds nothing.

* `Glob.parse`: the tokens of a pattern, or its leftmost fault and where that lies.
-/
namespace Rebuild.Glob

/-- A part of a bracketed class. -/
inductive ClassItem where
  | one (c : Char)
  | range (low high : Char)
  deriving DecidableEq, Repr

/-- A part of a pattern. -/
inductive Token where
  | char (c : Char)
  /-- `?` -/
  | anyChar
  /-- `*` -/
  | anyRun
  /-- `**` as a component -/
  | anyDirectories
  /-- `[…]` -/
  | within (items : List ClassItem)
  /-- `[!…]` -/
  | except (items : List ClassItem)
  deriving DecidableEq, Repr

/-- What can be wrong with a pattern. -/
inductive Fault where
  | tooManyStars
  | starsInComponent
  | badClass
  deriving DecidableEq, Repr

def Fault.message : Fault → String
  | .tooManyStars => "wildcards are either regular `*` or recursive `**`"
  | .starsInComponent => "recursive wildcards must form a single path component"
  | .badClass => "invalid range pattern"

/-- A fault and the character at which it lies. -/
structure PatternError where
  position : Nat
  fault : Fault
  deriving DecidableEq, Repr

def PatternError.message (e : PatternError) : String :=
  s!"Pattern syntax error near position {e.position}: {e.fault.message}"

/-- The items between the brackets of a class. -/
def classItems : List Char → List ClassItem
  | a :: '-' :: b :: rest => .range a b :: classItems rest
  | a :: rest => .one a :: classItems rest
  | [] => []

/-- Takes a class up to its closing bracket, its first item at hand. -/
def closeClass (token : List ClassItem → Token) (extra : Nat) (first : Char) (rest : List Char) :
    Option (Token × Nat × List Char) :=
  match rest.dropWhile (· != ']') with
  | [] => none
  | _ :: after =>
    let inside := rest.takeWhile (· != ']')
    some (token (classItems (first :: inside)), inside.length + extra, after)

/-- Takes the class behind an opening bracket: its token, the number of characters it takes up, and
what follows it. A bracket right after the opening is an item of the class. -/
def takeClass : List Char → Option (Token × Nat × List Char)
  | '!' :: first :: rest => closeClass .except 3 first rest
  | first :: rest => if first = '!' then none else closeClass .within 2 first rest
  | [] => none

theorem length_closeClass {token : List ClassItem → Token} {extra : Nat} {first : Char}
    {cs after : List Char} {t : Token} {width : Nat}
    (h : closeClass token extra first cs = some (t, width, after)) : after.length < cs.length := by
  unfold closeClass at h
  split at h
  · cases h
  next c rest hd =>
    cases h
    have := (List.dropWhile_sublist (l := cs) (· != ']')).length_le
    rw [hd] at this
    exact this

theorem length_takeClass {cs after : List Char} {t : Token} {width : Nat}
    (h : takeClass cs = some (t, width, after)) : after.length < cs.length := by
  unfold takeClass at h
  split at h
  · have := length_closeClass h; simp only [List.length_cons]; omega
  · split at h
    · cases h
    · have := length_closeClass h; simp only [List.length_cons]; omega
  · cases h

/-- Adds a `**`, unless one stands right before it and is not the first token. -/
def pushDirectories : List Token → List Token
  | .anyDirectories :: t :: rest => .anyDirectories :: t :: rest
  | tokens => .anyDirectories :: tokens

/-- Reads a pattern from some position on: `before` is the character in front of it and `tokens` are
those read so far, the last one first. -/
def parseFrom (position : Nat) (before : Option Char) (tokens : List Token) :
    List Char → Except PatternError (List Token)
  | [] => .ok tokens.reverse
  | c :: rest =>
    if c = '?' then parseFrom (position + 1) (some c) (.anyChar :: tokens) rest
    else if c = '*' then
      match rest with
      | '*' :: '*' :: _ => .error ⟨position + 2, .tooManyStars⟩
      | '*' :: rest =>
        if before = none ∨ before = some '/' then
          match rest with
          | [] => .ok (pushDirectories tokens).reverse
          | d :: rest =>
            if d = '/' then parseFrom (position + 3) (some '/') (pushDirectories tokens) rest
            else .error ⟨position + 2, .starsInComponent⟩
        else .error ⟨position - 1, .starsInComponent⟩
      | rest => parseFrom (position + 1) (some c) (.anyRun :: tokens) rest
    else if c = '[' then
      match h : takeClass rest with
      | none => .error ⟨position, .badClass⟩
      | some (token, width, after) =>
        parseFrom (position + width + 1) (some ']') (token :: tokens) after
    else parseFrom (position + 1) (some c) (.char c :: tokens) rest
  termination_by cs => cs.length
  decreasing_by
    all_goals simp only [List.length_cons]
    all_goals try omega
    have := length_takeClass h
    omega

/-- The tokens of a pattern. -/
def parse (pattern : String) : Except PatternError (List Token) :=
  parseFrom 0 none [] pattern.toList

end Rebuild.Glob
