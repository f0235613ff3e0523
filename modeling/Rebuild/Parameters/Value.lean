import Rebuild.Json.Printer
import Rebuild.Sorted.Assoc

/-!
# Parameter values

The structured values that a builder may be parametrised by, and their canonical JSON form. Objects
of that form have ascending keys, a later entry replacing an earlier one of the same key, so the
form depends neither on the order of entries nor on how a value was put together.

* `Parameter.canonical`: the canonical form, or the first failure in the order of writing.
* `Parameter.key`: the text of a value that serves as a key of an object.
-/
namespace Rebuild

/-- A structured value. -/
inductive Parameter where
  | unit
  | bool (b : Bool)
  | integer (n : Int)
  | single (x : FloatValue)
  | double (x : FloatValue)
  | char (c : Char)
  | text (s : String)
  | bytes (b : List UInt8)
  | none
  | some (v : Parameter)
  /-- A value in a wrapper of its own. -/
  | newtype (v : Parameter)
  | sequence (items : List Parameter)
  | map (entries : List (Parameter × Parameter))
  | record (fields : List (String × Parameter))
  | variant (name : String)
  | newtypeVariant (name : String) (v : Parameter)
  | tupleVariant (name : String) (items : List Parameter)
  | recordVariant (name : String) (fields : List (String × Parameter))
  /-- A value that cannot be written, for the given reason. -/
  | failing (reason : String)

/-- Why a value has no canonical form. -/
inductive ParameterError where
  | keyNotText
  | floatKeyNotFinite
  | integerOutOfRange
  | custom (reason : String)
  deriving DecidableEq, Repr

def ParameterError.message : ParameterError → String
  | .keyNotText => "key must be a string"
  | .floatKeyNotFinite => "float key must be finite (got NaN or +/-inf)"
  | .integerOutOfRange => "number out of range"
  | .custom reason => reason

/-- Whether an integer fits into 64 bits, signed or not. -/
def fitsWord (n : Int) : Bool := -(Nat.pow 2 63 : Int) ≤ n && n < (Nat.pow 2 64 : Int)

namespace FloatValue

/-- A number of any format as JSON; what is not finite is null. -/
def json : FloatValue → Json
  | .finite x => .float x
  | _ => .null

/-- The text of a number of a format as a key. -/
def key (f : FloatFormat) (layout : DecimalLayout) : FloatValue → Except ParameterError String
  | .finite x => .ok (x.text f layout)
  | _ => .error .floatKeyNotFinite

end FloatValue

namespace Parameter

/-- The text of a value as a key of an object. -/
def key : Parameter → Except ParameterError String
  | .text s => .ok s
  | .char c => .ok c.toString
  | .bool b => .ok (if b then "true" else "false")
  | .integer n => .ok (toString n)
  | .single x => x.key .single .single
  | .double x => x.key .double .double
  | .variant name => .ok name
  | .newtype v => v.key
  | .failing reason => .error (.custom reason)
  | _ => .error .keyNotText

mutual

/-- The canonical JSON form of a value. -/
def canonical : Parameter → Except ParameterError Json
  | .unit | .none => .ok .null
  | .bool b => .ok (.bool b)
  | .integer n => if fitsWord n then .ok (.integer n) else .error .integerOutOfRange
  | .single x | .double x => .ok x.json
  | .char c => .ok (.string c.toString)
  | .text s => .ok (.string s)
  | .bytes b => .ok (.array (b.map fun x => .integer x.toNat))
  | .some v | .newtype v => v.canonical
  | .sequence items => .array <$> canonicalItems items
  | .map entries => .object <$> canonicalEntries [] entries
  | .record fields => .object <$> canonicalFields [] fields
  | .variant name => .ok (.string name)
  | .newtypeVariant name v => do return .object [(name, ← v.canonical)]
  | .tupleVariant name items => do return .object [(name, .array (← canonicalItems items))]
  | .recordVariant name fields => do return .object [(name, .object (← canonicalFields [] fields))]
  | .failing reason => .error (.custom reason)

/-- The canonical forms of items, in order. -/
def canonicalItems : List Parameter → Except ParameterError (List Json)
  | [] => .ok []
  | v :: rest => do return (← v.canonical) :: (← canonicalItems rest)

/-- Adds entries to members with ascending keys. -/
def canonicalEntries (members : List (String × Json)) :
    List (Parameter × Parameter) → Except ParameterError (List (String × Json))
  | [] => .ok members
  | (k, v) :: rest => do
    let k ← k.key
    let v ← v.canonical
    canonicalEntries (Assoc.put k v members) rest

/-- Adds fields to members with ascending keys. -/
def canonicalFields (members : List (String × Json)) :
    List (String × Parameter) → Except ParameterError (List (String × Json))
  | [] => .ok members
  | (k, v) :: rest => do
    let v ← v.canonical
    canonicalFields (Assoc.put k v members) rest

end

/-- The text over which a digest of the value is taken. -/
def canonicalText (v : Parameter) : Except ParameterError String := Json.compact <$> v.canonical

end Parameter

end Rebuild
