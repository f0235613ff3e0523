import Rebuild.Session.Basic

/-!
# Files in a session

Directories by name, and the disk behind them. Paths on the disk are seen from the directory in
which the session works.
-/
namespace Rebuild.Session
open SessionM

/-- A path as seen from the directory in which the session works. -/
def place (p : OsPath) : OsPath := home.push p

def makeMemoryDirectory (name : String) : SessionM Unit := do
  let n ← SessionM.change fun w =>
    (w.directories.length, { w with directories := w.directories ++ [⟨name, ∅⟩] })
  modify fun s => { s with directories := s.directories.insert name (.memory s!"memory:{name}" n) }

def makeLocalDirectory (name : String) (root : OsPath) : SessionM Unit :=
  modify fun s => { s with directories := s.directories.insert name (.onDisk ⟨place root⟩) }

/-- Names a directory below a directory on the disk; its root. -/
def makeChild (name dir : String) (p : RelativePath) : SessionM OsPath := do
  match ← find directories dir with
  | .onDisk dir =>
    let child := dir.child p
    modify fun s => { s with directories := s.directories.insert name (.onDisk child) }
    return child.root
  | .memory .. => throw (.unknownName dir)

/-- The directory with a name. -/
def directory (name : String) : SessionM (Directory World) :=
  return (← find directories name).directory

def write (dir : String) (p : RelativePath) (content : Bytes) : SessionM Unit := do
  let dir ← directory dir
  attempt .fs (Action.change (dir.write p content))

def read (dir : String) (p : RelativePath) : SessionM Bytes := do
  let dir ← directory dir
  attempt .fs (Action.ask (dir.read p))

def holds (dir : String) (p : RelativePath) : SessionM Bool := do
  let dir ← directory dir
  ask (dir.holds p)

def delete (dir : String) (p : RelativePath) : SessionM Unit := do
  let dir ← directory dir
  attempt .fs (Action.change (dir.delete p))

def list (dir : String) (below : Option RelativePath) : SessionM (List RelativePath) := do
  let dir ← directory dir
  attempt .fs (Action.ask (dir.list below))

def label (dir : String) : SessionM String := return (← directory dir).label

/-- The number of files of a directory in memory. -/
def fileCount (dir : String) : SessionM Nat := do
  match ← find directories dir with
  | .memory _ n => ask fun w => ((World.directoryPart n).get w).files.size
  | .onDisk _ => throw (.unknownName dir)

/-- Makes a directory with all its ancestors. -/
def makeDirs (p : OsPath) : SessionM Unit := onDisk .os (Disk.makeDirs (place p))

/-- Writes a file in place, having made the directory that holds it. -/
def writeFile (p : OsPath) (content : Bytes) : SessionM Unit := onDisk .os do
  let steps := (OsPath.steps (place p)).reverse
  Disk.makeDirsUp (Disk.parentSteps steps)
  Disk.writeFile (place p) content

/-- Removes a file, a link, or a directory with everything in it. -/
def remove (p : OsPath) : SessionM Unit := onDisk .os do
  if (← DiskM.disk).isDir (place p) then Disk.removeTree (place p) else Disk.removeFile (place p)

def makeLink (p target : OsPath) : SessionM Unit :=
  onDisk .os (Disk.makeLink (place p) (place target))

/-- What a listing of the disk shows for a name. -/
inductive Shown where
  | emptyDir
  | lockFile
  | text (s : String)
  | bytes (content : Bytes)

/-- What is shown of a file. -/
def showFile (name content : Bytes) : Shown :=
  if (Bytes.ofText ".lock").isSuffixOf name then .lockFile
  else
    match (Bytes.ofText ".json").isSuffixOf name, content.text? with
    | true, some s => .text s
    | _, _ => .bytes content

/-- How deep a listing goes. -/
def depthLimit : Nat := 64

/-- What lies below a directory, through links, by the path from where the listing starts. -/
def listTree (d : Disk) :
    (depth : Nat) → (p shown : OsPath) → Except OsError (List (OsPath × Shown))
  | 0, _, _ => .error .tooManyLinks
  | depth + 1, p, shown => do
    let children := d.children (← d.dirAt p)
    let parts ← children.mapM fun (name, _) => do
      let q := p.push name
      let shown := shown.push name
      if d.isDir q then
        let below ← listTree d depth q shown
        return if below.isEmpty then [(shown ++ [OsPath.separator], .emptyDir)] else below
      else return [(shown, showFile name (← d.read q))]
    return parts.flatten

/-- The files and empty directories below a directory, by path. -/
def tree (p : OsPath) : SessionM (List (String × Shown)) := do
  let entries ← attempt .os (Action.ask fun w => listTree w.disk depthLimit (place p) [])
  return (entries.map fun (p, shown) => (p.display, shown)).mergeSort fun a b =>
    (compare a.1 b.1).isLE

end Rebuild.Session
