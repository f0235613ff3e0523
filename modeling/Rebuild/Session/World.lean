import Rebuild.Build.Context
import Rebuild.Cache.Memory
import Rebuild.Cache.OnDisk
import Rebuild.Directory.Memory
import Rebuild.Inputs.Basic

/-!
# The world of a session

Everything that a build can touch: a disk, directories and caches in memory, source sets,
parameters, and the scripts of scripted builders. Objects in memory are known by their numbers; an
object stays what it is when its name goes to another.
-/
namespace Rebuild

/-- What a scripted builder does when it runs, and how often it has run. -/
structure Script where
  outputs : List (RelativePath × Bytes) := []
  /-- The outputs it claims, if not those it writes. -/
  claims : Option Outputs := none
  failure : Option String := none
  panics : Bool := false
  runs : Nat := 0

/-- A call of a scripted transformation: the edges it saw, and what its edits gave. -/
structure TransformationCall where
  before : List Edge
  edits : List Bool

/-- Everything that a build can touch. -/
structure World where
  disk : Disk := {}
  directories : List MemoryDirectory := []
  caches : List MemoryCache := []
  sets : List SourceSet := []
  parameters : SortedMap String Parameter := ∅
  scripts : List Script := []
  /-- The builders that finished since this was last asked, in order. -/
  finished : List BuilderId := []
  /-- The calls of transformations since this was last asked, in order. -/
  calls : List TransformationCall := []

namespace World

/-- The disk of a world. -/
def diskPart : Part World Disk := ⟨World.disk, fun disk w => { w with disk }⟩

/-- A directory in memory, by its number. -/
def directoryPart (n : Nat) : Part World MemoryDirectory where
  get w := w.directories.getD n ⟨"", ∅⟩
  set d w := { w with directories := w.directories.set n d }

/-- A cache in memory, by its number. -/
def cachePart (n : Nat) : Part World MemoryCache where
  get w := w.caches.getD n {}
  set c w := { w with caches := w.caches.set n c }

/-- A source set, by its number. -/
def setPart (n : Nat) : Part World SourceSet where
  get w := w.sets.getD n ⟨"", ∅⟩
  set s w := { w with sets := w.sets.set n s }

/-- A script, by its number. -/
def scriptPart (n : Nat) : Part World Script where
  get w := w.scripts.getD n {}
  set s w := { w with scripts := w.scripts.set n s }

end World

/-- The builder that does what a script says, by the number of the script. -/
def Script.builder (n : Nat) (id : BuilderId) (serial : Nat) (inputs : Inputs World)
    (dir : Directory World) : Builder World where
  id
  serial
  inputs
  run := do
    let start (script : Script) := (script, { script with runs := script.runs + 1 })
    let script ← Action.change ((World.scriptPart n).change start)
    if script.panics then return .error .panicked
    if let some message := script.failure then return .error (.failed (.other message))
    match ← Action.change (dir.writeAll script.outputs) with
    | .error e => return .error (.failed (.fs e))
    | .ok () =>
      Action.change fun w => ((), { w with finished := w.finished ++ [id] })
      return .ok (script.claims.getD (.ofList (script.outputs.map Prod.fst)))

/-- An edit of the edges by a scripted transformation. -/
inductive Edit where
  | insert (e : Edge)
  | remove (e : Edge)
  | contains (e : Edge)
  | clear
  /-- Turns every edge round. -/
  | reverse
  deriving DecidableEq, Repr

namespace Edit

/-- Applies an edit. Its result is whether an edge was new, or was there; otherwise it is true. -/
def apply (edges : EdgeSet) : Edit → Bool × EdgeSet
  | insert e => (!edges.contains e, edges.insert e)
  | remove e => (edges.contains e, edges.erase e)
  | contains e => (edges.contains e, edges)
  | clear => (true, ∅)
  | reverse => (true, .ofList (edges.toList.map Edge.swap))

/-- Applies edits in order. -/
def applyAll : List Edit → EdgeSet → List Bool × EdgeSet
  | [], edges => ([], edges)
  | edit :: rest, edges =>
    let (b, edges) := edit.apply edges
    let (bs, edges) := applyAll rest edges
    (b :: bs, edges)

/-- The transformation that applies edits. It lets the build run if `verdict` or else the last edit
says so. -/
def transformation (edits : List Edit) (verdict : Option Bool) : Transformation World :=
  fun edges => do
    let (results, after) := applyAll edits edges
    Action.change fun w => ((), { w with calls := w.calls ++ [⟨edges.toList, results⟩] })
    return (verdict.getD (results.getLast?.getD true), after)

end Edit

end Rebuild
