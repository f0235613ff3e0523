import Rebuild.Path.Os
import Rebuild.Text.Blank

/-!
# The environment

The variables that settle where the build cache lies and how a build runs. Values are bytes.

* `Environment.cacheDir`: where the build cache lies unless a caller says otherwise.
* `Environment.jobs?`, `Environment.failFast?`: settings that are texts of the right form.
-/
namespace Rebuild

/-- The values of the variables that are set. -/
structure Environment where
  /-- The value of `KILN_CACHE_DIR`. -/
  cacheRoot : Option Bytes := none
  /-- The value of `XDG_CACHE_HOME`. -/
  cacheHome : Option Bytes := none
  /-- The value of `HOME`. -/
  home : Option Bytes := none
  /-- The value of `KILN_JOBS`. -/
  jobs : Option Bytes := none
  /-- The value of `KILN_FAIL_FAST`. -/
  failFast : Option Bytes := none
  deriving DecidableEq, Repr

namespace Environment

/-- The directory for caches of all programs: an empty setting does not count, an empty home does.
-/
def cachesDir (env : Environment) : Option OsPath :=
  env.cacheHome.filter (· ≠ []) <|> env.home.map (OsPath.child · ".cache")

/-- The root of the build cache: the given one, or `kiln` among the caches. -/
def cacheDir (env : Environment) : Option OsPath :=
  env.cacheRoot.filter (· ≠ []) <|> env.cachesDir.map (OsPath.child · "kiln")

/-- The largest number of jobs that can be asked for. -/
def jobLimit : Nat := Nat.pow 2 64 - 1

/-- Reads a number of jobs: decimal digits after at most one plus sign, with any blanks around. -/
def readJobs (s : String) : Option Nat :=
  let digits := match trimBlanks s with
    | '+' :: rest => rest
    | digits => digits
  if digits.isEmpty || !digits.all Char.isDigit then none
  else some (digits.foldl (fun n c => 10 * n + (c.toNat - '0'.toNat)) 0)
    |>.filter fun n => 0 < n && n ≤ jobLimit

/-- Reads a truth value, in capital or small letters, with any blanks around. No text is false. -/
def readSwitch (s : String) : Option Bool :=
  match String.ofList ((trimBlanks s).map Char.toLower) with
  | "1" | "true" | "yes" | "on" => some true
  | "0" | "false" | "no" | "off" | "" => some false
  | _ => none

/-- A setting that is a text, as it is written and as it is read. What is no text does not count. -/
def setting {α : Type} (value : Option Bytes) (read : String → Option α) :
    Option (String × Option α) := do
  let s ← (← value).text?
  return (s, read s)

/-- The number of jobs asked for. -/
def jobs? (env : Environment) : Option (String × Option Nat) := setting env.jobs readJobs

/-- Whether a run is to stop at a failure, if the environment says so. -/
def failFast? (env : Environment) : Option (String × Option Bool) := setting env.failFast readSwitch

end Environment

end Rebuild
