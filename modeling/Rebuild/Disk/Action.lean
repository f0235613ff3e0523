import Rebuild.Disk.Resolve

/-!
# Operations on the disk

What programs ask of the operating system, as sequences of single changes. An operation checks what
it is given, and then makes its changes one after the other; the changes made are on record, so that
it is known what the disk holds if the program stops between two of them.

* `Disk.makeDirs`: a directory with all its ancestors.
* `Disk.replaceFile`: the contents of a file, changed at once by way of a temporary file.
* `Disk.removeTree`: a directory with everything below it, the deepest first.
-/
namespace Rebuild

/-- The disk, and the changes made to it, the latest first. -/
structure Journal where
  disk : Disk
  changes : List DiskOp := []

/-- A sequence of changes that may end early. The changes made before stay. -/
abbrev DiskM (ε α : Type) := ExceptT ε (StateM Journal) α

namespace DiskM

variable {ε α : Type}

/-- Runs an operation on a disk. -/
def run (x : DiskM ε α) (d : Disk) : Except ε α × Disk :=
  let (result, j) := (ExceptT.run x).run ⟨d, []⟩
  (result, j.disk)

/-- The changes that an operation makes to a disk, in order. -/
def changes (x : DiskM ε α) (d : Disk) : List DiskOp :=
  ((ExceptT.run x).run ⟨d, []⟩).2.changes.reverse

/-- The disk as it is now. -/
def disk : DiskM ε Disk := return (← getThe Journal).disk

/-- Asks the disk something. -/
def ask (question : Disk → Except ε α) : DiskM ε α := do
  ExceptT.mk (pure (question (← disk)))

/-- Makes a change. -/
def change (op : DiskOp) : DiskM ε Unit :=
  modifyThe Journal fun j => ⟨op.apply j.disk, op :: j.changes⟩

/-- The outcome of an operation, be it a failure. -/
def attempt {δ : Type} (x : DiskM ε α) : DiskM δ (Except ε α) :=
  ExceptT.mk (.ok <$> ExceptT.run x)

/-- Gives the failures of an operation another form. -/
def mapError {δ : Type} (f : ε → δ) (x : DiskM ε α) : DiskM δ α :=
  ExceptT.mk (Except.mapError f <$> ExceptT.run x)

/-- Ignores a failure. -/
def ignore {δ : Type} (x : DiskM ε Unit) : DiskM δ Unit := discard (attempt x)

end DiskM

namespace Disk
open DiskM

/-- Makes the directory at the end of some steps. -/
def makeDirAt (steps : List PathStep) : DiskM OsError Unit := do
  let found ← ask fun d => d.walk false linkLimit [] steps
  match found.item with
  | some _ => throw .exists
  | none => change (.makeDir found.place)

/-- The steps to the parent directory, from the last to the first. -/
def parentSteps (steps : List PathStep) : List PathStep :=
  (steps.dropWhile (· == .stay)).tail.dropWhile (· == .stay)

theorem length_parentSteps_lt (step : PathStep) (up : List PathStep) :
    (parentSteps (step :: up)).length < (step :: up).length := by
  have h := List.dropWhile_sublist (· == PathStep.stay) (l := step :: up) |>.length_le
  have h' := List.dropWhile_sublist (· == PathStep.stay)
    (l := ((step :: up).dropWhile (· == PathStep.stay)).tail) |>.length_le
  simp only [parentSteps, List.length_tail, List.length_cons] at h h' ⊢
  omega

/-- Makes the directory at the end of some steps, unless they lead to one already. -/
def ensureDirAt (steps : List PathStep) : DiskM OsError Unit :=
  tryCatch (makeDirAt steps) fun e => do
    let found ← attempt (ask fun d => d.walk true linkLimit [] steps)
    unless found.toOption.bind (·.item) = some .dir do throw e

/-- Makes a directory, and first its ancestors if they are missing. The steps are given from the
last to the first. -/
def makeDirsUp : List PathStep → DiskM OsError Unit
  | [] => pure ()
  | step :: up =>
    tryCatch (ensureDirAt (step :: up).reverse) fun e => do
      if e ≠ .missing then throw e
      makeDirsUp (parentSteps (step :: up))
      ensureDirAt (step :: up).reverse
  termination_by steps => steps.length
  decreasing_by exact length_parentSteps_lt step up

/-- Makes a directory with all its ancestors. One that is already there will do. -/
def makeDirs (p : OsPath) : DiskM OsError Unit := do
  if (0 : UInt8) ∈ p then throw .nulByte
  if pathLimit ≤ p.length then throw .nameTooLong
  makeDirsUp (OsPath.steps (OsPath.trimEnd p)).reverse

/-- The digits of a number, with zeros in front up to six of them. -/
def sixDigits (n : Nat) : List Char := (Nat.toDigits 10 n).leftpad 6 '0'

/-- A name that consists of a stem and a number. -/
def numbered (stem : String) (n : Nat) : Bytes := Bytes.ofText (stem ++ String.ofList (sixDigits n))

/-- A name that is not taken in a directory: a stem and six characters. -/
def freshName (d : Disk) (dir : Place) (stem : String) : Bytes :=
  numbered stem (((List.range (d.items.size + 1)).find? fun n =>
    d.at? (dir ++ [numbered stem n]) = none).getD 0)

/-- Renames a file or a directory. A file takes the place of another file or of a link, a directory
only that of an empty directory. -/
def rename (source : Place) (target : OsPath) : DiskM OsError Unit := do
  let found ← ask fun d => d.resolve false target
  let d ← disk
  match d.at? source, found.item with
  | some .dir, some .dir => unless d.below found.place = [] do throw .notEmpty
  | some .dir, some _ => throw .notDirectory
  | _, some .dir => throw .isDirectory
  | _, _ => pure ()
  change (.move source found.place)

/-- How many bytes the name of a temporary file has: `.tmp` and six characters. -/
def temporaryLength : Nat := 10

/-- Gives a file its contents, new or not, at once: a temporary file beside it takes its place. A
link is replaced, not followed. The path of the temporary file is an absolute one, and so is `dir`:
a relative one would be shorter by the working directory. -/
def replaceFile (dir file : OsPath) (content : Bytes) : DiskM OsError Unit := do
  makeDirs dir
  -- the path of the temporary file may be too long where that of the file is not
  if pathLimit ≤ dir.length + 1 + temporaryLength then throw .nameTooLong
  let place ← ask fun d => d.dirAt dir
  let temporary := place ++ [(← disk).freshName place ".tmp"]
  change (.makeFile temporary content)
  if let .error e ← attempt (rename temporary file) then
    change (.remove temporary)
    -- the renaming takes a name that cannot be handed over for an argument out of range
    throw (if e = .nulByte then .invalidArgument else e)

/-- Writes a file in place: the file at the end of the path, or a new one there. -/
def writeFile (p : OsPath) (content : Bytes) : DiskM OsError Unit := do
  let found ← ask fun d => d.resolve true p
  match found.item with
  | some .dir => throw .isDirectory
  | some _ => change (.overwrite found.place content)
  | none => change (.makeFile found.place content)

/-- Removes a file or a link. -/
def removeFile (p : OsPath) : DiskM OsError Unit := do
  let found ← ask fun d => d.resolve false p
  match found.item with
  | some .dir => throw .isDirectory
  | some _ => change (.remove found.place)
  | none => throw .missing

/-- Removes what lies at a place and below it, the last in order first. -/
def removeAt (p : Place) : DiskM OsError Unit := do
  for (q, _) in ((← disk).below p).reverse do change (.remove (p ++ q))
  change (.remove p)

/-- Removes a directory with everything in it, or a link. -/
def removeTree (p : OsPath) : DiskM OsError Unit := do
  let found ← ask fun d => d.resolve false p
  match found.item with
  | some .dir => removeAt found.place
  | some (.link _) => change (.remove found.place)
  | some (.file ..) => throw .notDirectory
  | none => throw .missing

/-- Makes a symbolic link. -/
def makeLink (p target : OsPath) : DiskM OsError Unit := do
  let found ← ask fun d => d.resolve false p
  match found.item with
  | some _ => throw .exists
  | none => change (.makeLink found.place target)

end Disk

end Rebuild
