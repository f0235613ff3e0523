import Rebuild.Digest.ContentHash
import Rebuild.Fingerprint.Frame
import Rebuild.Sorted.Map

/-!
# Payloads

The contents of a frame: numbers of eight bytes, lowest first, in front of texts, byte strings and
lists; a mark byte in front of an optional value; and the fields of a record one after another.

* `Payload.text`, `Payload.list`, `Payload.option`, …: writing.
* `Payload.Reader`: reading takes a value from the front of the bytes and gives the rest.
* `Payload.whole`: a value that the bytes hold with nothing after it.
-/
namespace Rebuild.Payload

/-! ## Writing -/

def length (n : Nat) : Bytes := littleEndian 8 n

def byteString (b : Bytes) : Bytes := length b.length ++ b

def text (s : String) : Bytes := byteString (Bytes.ofText s)

def list {α : Type} (write : α → Bytes) (l : List α) : Bytes := length l.length ++ l.flatMap write

def option {α : Type} (write : α → Bytes) : Option α → Bytes
  | none => [0]
  | some a => 1 :: write a

/-- The entries of a map of files, by ascending path. -/
def files (m : SortedMap RelativePath ContentHash) : Bytes :=
  list (fun (p, h) => text p.text ++ text h.text) m.entries

/-! ## Reading -/

/-- Takes a value from the front of some bytes. -/
abbrev Reader (α : Type) := Bytes → Except PayloadFault (α × Bytes)

def readLength : Reader Nat := fun b =>
  if (b.take 8).length = 8 then .ok (ofLittleEndian (b.take 8), b.drop 8) else .error .endOfInput

/-- The limit on what may be allocated is for readers of streams. The bytes are all here already, so
contents are short when they are declared to be longer than what is left, by however much. -/
def readByteString : Reader Bytes := fun b => do
  let (n, b) ← readLength b
  if (b.take n).length = n then .ok (b.take n, b.drop n) else .error .shortContents

def readText : Reader String := fun b => do
  let (contents, b) ← readByteString b
  match contents.text? with
  | some s => .ok (s, b)
  | none => .error (.notText (contents.flaw?.getD ⟨0, none⟩))

def readPath : Reader RelativePath := fun b => do
  let (s, b) ← readText b
  match RelativePath.parse s with
  | .ok p => .ok (p, b)
  | .error e => .error (.path e)

/-- Takes `n` values. -/
def readMany {α : Type} (read : Reader α) : Nat → Reader (List α)
  | 0, b => .ok ([], b)
  | n + 1, b => do
    let (a, b) ← read b
    let (l, b) ← readMany read n b
    .ok (a :: l, b)

def readList {α : Type} (read : Reader α) : Reader (List α) := fun b => do
  let (n, b) ← readLength b
  readMany read n b

def readOption {α : Type} (read : Reader α) : Reader (Option α)
  | [] => .error .endOfInput
  | mark :: b =>
    if mark = 0 then .ok (none, b)
    else if mark = 1 then do
      let (a, b) ← read b
      .ok (some a, b)
    else .error (.optionMark mark.toNat)

/-- Takes two values, one after the other. -/
def readPair {α β : Type} (first : Reader α) (second : Reader β) : Reader (α × β) := fun b => do
  let (x, b) ← first b
  let (y, b) ← second b
  .ok ((x, y), b)

def readHash : Reader ContentHash := fun b => do
  let (s, b) ← readText b
  .ok (⟨s⟩, b)

/-- Takes a map of files; of two entries for a path the later counts. -/
def readFiles : Reader (SortedMap RelativePath ContentHash) := fun b => do
  let (entries, b) ← readList (readPair readPath readHash) b
  .ok (.ofList entries, b)

/-- Reads bytes that hold exactly one value. -/
def whole {α : Type} (read : Reader α) (b : Bytes) : Except PayloadFault α := do
  let (a, rest) ← read b
  if rest = [] then .ok a else .error .leftOver

end Rebuild.Payload
