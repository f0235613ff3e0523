import Rebuild.Disk.Basic
import Rebuild.Disk.Error

/-!
# Where paths lead

A path is walked from the root, one step at a time; every step but the last must reach a directory.
A link on the way is replaced by the steps of its target, at most forty times. Whether a link at the
end is followed is up to the operation. There is no working directory: paths are absolute, and how
long they are is counted so.

* `Disk.resolve`: the place that a path leads to, and what lies there.
* `Disk.read`, `Disk.isDir`, `Disk.isFile`, `Disk.present`: questions about the end of a path.
-/
namespace Rebuild

/-- A step of a path. -/
inductive PathStep where
  | stay
  | up
  | down (name : Bytes)
  deriving DecidableEq, Repr

namespace OsPath

/-- The step that a piece between separators stands for. -/
def stepOfPiece (piece : Bytes) : PathStep :=
  if piece = [] ∨ piece = [0x2E] then .stay
  else if piece = [0x2E, 0x2E] then .up
  else .down piece

/-- The steps of a path, as it is written. -/
def steps (p : OsPath) : List PathStep := (p.splitOn separator).map stepOfPiece

/-- A path without separators at its end. -/
def trimEnd (p : OsPath) : OsPath := (p.reverse.dropWhile (· == separator)).reverse

/-- A path without pieces at its end that stay in place, unless it has no others. -/
def trimStays (p : OsPath) : OsPath :=
  let pieces := (p.splitOn separator).reverse.dropWhile (stepOfPiece · == .stay)
  if pieces = [] then p else [separator].intercalate pieces.reverse

end OsPath

/-- The end of a path: its place, and what lies there if something does. -/
structure Found where
  place : Place
  item : Option Item
  deriving DecidableEq, Repr

namespace Disk

/-- The longest name in bytes. -/
def nameLimit : Nat := 255

/-- What the length of a path in bytes stays below. -/
def pathLimit : Nat := 4096

/-- How many links a path may lead through. -/
def linkLimit : Nat := 40

/-- Takes steps from a place. -/
def walk (d : Disk) (follow : Bool) (links : Nat) (here : Place) :
    List PathStep → Except OsError Found
  | [] => .ok ⟨here, d.at? here⟩
  | step :: rest =>
    if d.at? here ≠ some .dir then .error .notDirectory
    else
      match step with
      | .stay => walk d follow links here rest
      | .up => walk d follow links here.dropLast rest
      | .down name =>
        if nameLimit < name.length then .error .nameTooLong
        else
          let next := here ++ [name]
          match d.at? next with
          | none => if rest = [] then .ok ⟨next, none⟩ else .error .missing
          | some (.link target) =>
            if rest = [] ∧ follow = false then .ok ⟨next, some (.link target)⟩
            else
              match links with
              | 0 => .error .tooManyLinks
              | links + 1 => walk d follow links [] (OsPath.steps target ++ rest)
          | some _ => walk d follow links next rest
  termination_by steps => (links, steps.length)

/-- Where a path leads. -/
def resolve (d : Disk) (follow : Bool) (p : OsPath) : Except OsError Found :=
  if (0 : UInt8) ∈ p then .error .nulByte
  else if p = [] then .error .missing
  else if pathLimit ≤ p.length then .error .nameTooLong
  else d.walk follow linkLimit [] (OsPath.steps p)

/-- What a path leads to in the end. -/
def item? (d : Disk) (p : OsPath) : Option Item := (d.resolve true p).toOption.bind (·.item)

def isDir (d : Disk) (p : OsPath) : Bool := d.item? p == some .dir

def isFile (d : Disk) (p : OsPath) : Bool :=
  match d.item? p with
  | some (.file ..) => true
  | _ => false

/-- Whether a path leads to anything. -/
def present (d : Disk) (p : OsPath) : Bool := (d.item? p).isSome

/-- The contents of a file. -/
def read (d : Disk) (p : OsPath) : Except OsError Bytes := do
  match (← d.resolve true p).item with
  | some (.file _ content) => return content
  | some .dir => throw .isDirectory
  | _ => throw .missing

/-- The contents of a file of text. -/
def readText (d : Disk) (p : OsPath) : Except OsError String := do
  match (← d.read p).text? with
  | some s => return s
  | none => throw .notText

/-- The place of a directory. -/
def dirAt (d : Disk) (p : OsPath) : Except OsError Place := do
  let found ← d.resolve true p
  match found.item with
  | some .dir => return found.place
  | some _ => throw .notDirectory
  | none => throw .missing

end Disk

end Rebuild
