import Rebuild.Glob.Pattern

/-!
# Matching globs

A pattern is matched against a whole text. `?`, `*` and classes never match a `/`, a leading dot is
nothing special, and letters count with their case. A sequence token tries the shortest match first;
when a later token finds the text used up, longer matches are not tried, because they leave even
less.

* `Glob.run`: matches tokens against a text.
* `Glob.Pattern.matches`: whether a pattern matches.
-/
namespace Rebuild.Glob

/-- The result of an attempt. -/
inductive Attempt where
  | success
  | mismatch
  /-- A token wanted a character after the last one. -/
  | usedUp
  deriving DecidableEq, Repr

def ClassItem.contains (c : Char) : ClassItem → Bool
  | .one d => c == d
  | .range low high => low ≤ c && c ≤ high

/-- Whether a token for a single character takes the character. -/
def Token.accepts (c : Char) : Token → Bool
  | .char d => c == d
  | .anyChar => c != '/'
  | .within items => c != '/' && items.any (·.contains c)
  | .except items => c != '/' && !items.any (·.contains c)
  | .anyRun | .anyDirectories => false

/-- Leaves out more and more characters, none of them a `/`, until the rest of the pattern matches.
-/
def skipRun (rest : List Char → Attempt) : List Char → Attempt
  | [] => rest []
  | c :: cs =>
    match rest (c :: cs) with
    | .mismatch => if c = '/' then .mismatch else skipRun rest cs
    | result => result

/-- Leaves out more and more whole components until the rest of the pattern matches. -/
def skipComponents (rest : List Char → Attempt) : List Char → Attempt
  | [] => rest []
  | c :: cs =>
    if c = '/' then
      match rest cs with
      | .mismatch => skipComponents rest cs
      | result => result
    else skipComponents rest cs

/-- Matches tokens against a whole text. -/
def run : List Token → List Char → Attempt
  | [], cs => if cs.isEmpty then .success else .mismatch
  | .anyRun :: tokens, cs => skipRun (run tokens) cs
  | .anyDirectories :: tokens, cs =>
    match run tokens cs with
    | .mismatch => skipComponents (run tokens) cs
    | result => result
  | t :: tokens, cs =>
    match cs with
    | [] => .usedUp
    | c :: cs => if t.accepts c then run tokens cs else .mismatch

/-- A pattern that has been read: its text and its tokens. -/
structure Pattern where
  text : String
  tokens : List Token
  deriving DecidableEq, Repr

/-- Reads a pattern. -/
def Pattern.ofText (text : String) : Except PatternError Pattern := (⟨text, ·⟩) <$> parse text

/-- Whether the pattern matches a whole text. -/
def Pattern.matches (p : Pattern) (text : String) : Bool := run p.tokens text.toList == .success

end Rebuild.Glob
