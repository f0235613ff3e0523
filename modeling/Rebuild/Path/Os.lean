import Rebuild.Path.Parse
import Rebuild.Text.Utf8

/-!
# Paths of the operating system

Byte strings whose components are separated by `/`. Empty pieces do not count, and `.` only at the
start of a relative path.

* `OsPath.push`: a path below a directory, as text.
* `RelativePath.under`: where a relative path lies below a root.
* `RelativePath.ofOs`: the relative path that names the same file, if all its components are plain.
-/
namespace Rebuild

/-- A path as the operating system sees it. -/
abbrev OsPath := Bytes

namespace OsPath

/-- The byte between components. -/
def separator : UInt8 := 0x2F

/-- One step of a path. -/
inductive Component where
  | root
  /-- A `.` at the start. -/
  | current
  | parent
  | name (bytes : Bytes)
  deriving DecidableEq, Repr

/-- The step a piece between separators stands for. -/
def Component.ofPiece (piece : Bytes) : Option Component :=
  if piece = [] ∨ piece = [0x2E] then none
  else if piece = [0x2E, 0x2E] then some .parent
  else some (.name piece)

def isAbsolute (p : OsPath) : Bool := p.head? == some separator

/-- What comes before the steps that the pieces of a path stand for. -/
def origin (p : OsPath) : List Component :=
  if isAbsolute p then [.root]
  else if (p.splitOn separator).head? = some [0x2E] then [.current]
  else []

/-- The steps of a path. -/
def components (p : OsPath) : List Component :=
  origin p ++ (p.splitOn separator).filterMap Component.ofPiece

/-- The path `p` seen from the directory `dir`. An absolute `p` stands for itself. -/
def push (dir p : OsPath) : OsPath :=
  if isAbsolute p then p
  else if dir = [] ∨ dir.getLast? = some separator then dir ++ p
  else dir ++ separator :: p

/-- The path `name` below a directory. -/
def child (dir : OsPath) (name : String) : OsPath := push dir (Bytes.ofText name)

/-- The text of the path, with U+FFFD for what is not UTF-8. -/
def display (p : OsPath) : String := p.lossyText

end OsPath

namespace RelativePath

/-- Where the path lies below a root. -/
def under (p : RelativePath) (root : OsPath) : OsPath := p.segments.foldl OsPath.child root

/-- The names of a path's components, if all that count are plain names. -/
def plainNames : List OsPath.Component → Except PathFault (List String)
  | [] => .ok []
  | .current :: rest => plainNames rest
  | .name bytes :: rest =>
    match bytes.text? with
    | none => .error .notUtf8
    | some name =>
      if '\\' ∈ name.toList then .error .backslash else (name :: ·) <$> plainNames rest
  | _ :: _ => .error .notPlain

/-- The relative path that an OS path spells. -/
def ofOs (p : OsPath) : Except PathError RelativePath :=
  match plainNames p.components with
  | .error fault => .error ⟨p.display, fault⟩
  | .ok names => parse ("/".intercalate names)

end RelativePath

end Rebuild
