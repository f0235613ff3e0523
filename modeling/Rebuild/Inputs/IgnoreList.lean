import Rebuild.Glob.Match
import Rebuild.Path.Basic

/-!
# Ignore lists

Glob rules for files that are no inputs. A rule applies to a file if it matches the whole path or
the file name.
-/
namespace Rebuild

/-- Rules, in the order in which they were added. -/
structure IgnoreList where
  patterns : List Glob.Pattern := []
  deriving DecidableEq

/-- A rule that is no glob. -/
structure InvalidRule where
  rule : String
  error : Glob.PatternError
  deriving DecidableEq, Repr

def InvalidRule.message (e : InvalidRule) : String :=
  s!"invalid ignore pattern {quoted e.rule}: {e.error.message}"

namespace IgnoreList

/-- The list of the given rules, or the first that is no glob. -/
def ofRules : List String → Except InvalidRule IgnoreList
  | [] => .ok {}
  | rule :: rest => do
    let pattern ← (Glob.Pattern.ofText rule).mapError (⟨rule, ·⟩)
    let others ← ofRules rest
    return ⟨pattern :: others.patterns⟩

/-- Whether a file is ignored. -/
def ignores (l : IgnoreList) (p : RelativePath) : Bool :=
  l.patterns.any fun pattern => pattern.matches p.text || pattern.matches p.fileName

/-- The texts of the rules. -/
def rules (l : IgnoreList) : List String := l.patterns.map (·.text)

def isEmpty (l : IgnoreList) : Bool := l.patterns.isEmpty

end IgnoreList

end Rebuild
