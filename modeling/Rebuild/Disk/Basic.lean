import Rebuild.Path.Os
import Rebuild.Sorted.Set

/-!
# The disk

A tree of directories, files and symbolic links, held as a map from places to what lies there. A
file has a serial number, which it keeps for life: when it is moved, and when it has lost its name
and only an open handle still knows it.

* `Disk.at?`, `Disk.below`: what lies at a place, and below it.
* `DiskOp`: a change that happens at once or not at all; `DiskOp.apply` is what it does, and lemmas
  such as `DiskOp.at?_apply_makeFile` say what lies where afterwards.
-/
namespace Rebuild

/-- Where something lies: the names on the way there from the root. -/
abbrev Place := List Bytes

/-- What lies at a place. -/
inductive Item where
  | dir
  | file (serial : Nat) (content : Bytes)
  /-- A symbolic link. Its target is seen from the root. -/
  | link (target : OsPath)
  deriving DecidableEq, Repr

/-- A tree of directories, files and links. The root is a directory and has no entry. -/
structure Disk where
  items : SortedMap Place Item := ∅
  /-- The contents of files without a name, by serial number. -/
  nameless : SortedMap Nat Bytes := ∅
  /-- The files that a handle has locked. -/
  locked : SortedSet Nat := ∅
  /-- The next serial number. -/
  serials : Nat := 0
  deriving DecidableEq

namespace Disk

/-- What lies at a place. -/
def at? (d : Disk) (p : Place) : Option Item := if p = [] then some .dir else d.items.get? p

/-- What lies below a place, by the names that lead there from it. Everything below a directory
comes right after it, and the names in a directory ascend. -/
def below (d : Disk) (p : Place) : List (Place × Item) :=
  d.items.entries.filterMap fun (q, item) =>
    if p.isPrefixOf q && q ≠ p then some (q.drop p.length, item) else none

/-- The names in a directory, with what they name. -/
def children (d : Disk) (p : Place) : List (Bytes × Item) :=
  (d.below p).filterMap fun (q, item) =>
    match q with
    | [name] => some (name, item)
    | _ => none

/-- The contents of the file with a serial number, which may have lost its name. -/
def contentOf? (d : Disk) (serial : Nat) : Option Bytes :=
  (d.items.values.findSome? fun
    | .file n content => if n = serial then some content else none
    | _ => none) <|> d.nameless.get? serial

/-- Keeps the contents of a file that is about to lose its name. -/
def keepContent (d : Disk) (p : Place) : Disk :=
  match d.at? p with
  | some (.file serial content) => { d with nameless := d.nameless.insert serial content }
  | _ => d

@[simp] theorem at?_nil (d : Disk) : d.at? [] = some .dir := rfl

theorem at?_insert (d : Disk) {p : Place} (hp : p ≠ []) (item : Item) (q : Place) :
    { d with items := d.items.insert p item }.at? q = if q = p then some item else d.at? q := by
  by_cases hq : q = []
  · subst hq
    simp [at?, Ne.symm hp]
  · by_cases h : q = p
    · simp [at?, h, hp]
    · simp [at?, hq, h, SortedMap.get?_insert_of_ne h]

theorem at?_erase (d : Disk) {p : Place} (hp : p ≠ []) (q : Place) :
    { d with items := d.items.erase p }.at? q = if q = p then none else d.at? q := by
  by_cases hq : q = []
  · subst hq
    simp [at?, Ne.symm hp]
  · simp [at?, hq, SortedMap.get?_erase]

theorem items_keepContent (d : Disk) (p : Place) : (d.keepContent p).items = d.items := by
  unfold keepContent
  split <;> rfl

def lock (d : Disk) (serial : Nat) : Disk := { d with locked := d.locked.insert serial }

def unlock (d : Disk) (serial : Nat) : Disk := { d with locked := d.locked.erase serial }

end Disk

/-- A single change of the disk. -/
inductive DiskOp where
  | makeDir (p : Place)
  /-- Makes a new file. -/
  | makeFile (p : Place) (content : Bytes)
  /-- Gives a file other contents; it stays the same file. -/
  | overwrite (p : Place) (content : Bytes)
  | makeLink (p : Place) (target : OsPath)
  /-- Takes away a file, a link or an empty directory. -/
  | remove (p : Place)
  /-- Moves what lies at and below a place; what lay at the new place is gone. -/
  | move (source target : Place)
  deriving DecidableEq, Repr

namespace DiskOp

/-- What a change does. -/
def apply (op : DiskOp) (d : Disk) : Disk :=
  match op with
  | makeDir p => { d with items := d.items.insert p .dir }
  | makeFile p content =>
    { d with items := d.items.insert p (.file d.serials content), serials := d.serials + 1 }
  | overwrite p content =>
    match d.at? p with
    | some (.file serial _) => { d with items := d.items.insert p (.file serial content) }
    | _ => d
  | makeLink p target => { d with items := d.items.insert p (.link target) }
  | remove p =>
    let d := d.keepContent p
    { d with items := d.items.erase p }
  | move source target =>
    let d := d.keepContent target
    let others := d.items.filter fun q _ => !source.isPrefixOf q && q ≠ target
    let moved := d.items.entries.filter fun (q, _) => source.isPrefixOf q
    let items := moved.foldl
      (fun items (q, item) => items.insert (target ++ q.drop source.length) item) others
    { d with items }

theorem at?_apply_makeDir (d : Disk) {p : Place} (hp : p ≠ []) (q : Place) :
    ((makeDir p).apply d).at? q = if q = p then some .dir else d.at? q := d.at?_insert hp _ q

theorem at?_apply_makeFile (d : Disk) {p : Place} (hp : p ≠ []) (content : Bytes) (q : Place) :
    ((makeFile p content).apply d).at? q =
      if q = p then some (.file d.serials content) else d.at? q := d.at?_insert hp _ q

theorem at?_apply_makeLink (d : Disk) {p : Place} (hp : p ≠ []) (target : OsPath) (q : Place) :
    ((makeLink p target).apply d).at? q = if q = p then some (.link target) else d.at? q :=
  d.at?_insert hp _ q

theorem at?_apply_remove (d : Disk) {p : Place} (hp : p ≠ []) (q : Place) :
    ((remove p).apply d).at? q = if q = p then none else d.at? q := by
  show { d.keepContent p with items := (d.keepContent p).items.erase p }.at? q = _
  rw [Disk.at?_erase _ hp]
  simp only [Disk.at?, Disk.items_keepContent]

end DiskOp

end Rebuild
