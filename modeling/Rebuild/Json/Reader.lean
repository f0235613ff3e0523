import Rebuild.Json.Token

/-!
# Reading JSON

A text is read into a tree first: nothing is bounded there, neither the nesting nor the size of
a number. Records then pick the parts they want and refuse what has the wrong form.

* `Json.Tree.parse`: the tree of a text that is one JSON value.
* `Json.Tree.text?`, `unsigned?`, `items?`: scalars and lists.
* `Json.Tree.fields?`: the fields of a record, given as an object or as a list in their order.
-/
namespace Rebuild.Json

/-- A JSON text, as it is written. -/
inductive Tree where
  | null
  | bool (b : Bool)
  | number (n : NumberText)
  | string (pieces : List Piece)
  | array (items : List Tree)
  | object (members : List (List Piece × Tree))

namespace Tree

mutual

/-- One value, and the tokens that follow it. -/
def value : Nat → List Token → Option (Tree × List Token)
  | 0, _ => none
  | _ + 1, .null :: rest => some (.null, rest)
  | _ + 1, .bool b :: rest => some (.bool b, rest)
  | _ + 1, .number n :: rest => some (.number n, rest)
  | _ + 1, .string pieces :: rest => some (.string pieces, rest)
  | _ + 1, .openArray :: .closeArray :: rest => some (.array [], rest)
  | _ + 1, .openObject :: .closeObject :: rest => some (.object [], rest)
  | fuel + 1, .openArray :: rest => (items fuel rest).map fun (l, rest) => (.array l, rest)
  | fuel + 1, .openObject :: rest => (members fuel rest).map fun (l, rest) => (.object l, rest)
  | _ + 1, _ => none

/-- The items of a list that is not empty, up to its end. -/
def items : Nat → List Token → Option (List Tree × List Token)
  | 0, _ => none
  | fuel + 1, tokens => do
    let (v, rest) ← value fuel tokens
    match rest with
    | .closeArray :: rest => some ([v], rest)
    | .comma :: rest =>
      let (l, rest) ← items fuel rest
      some (v :: l, rest)
    | _ => none

/-- The members of an object that is not empty, up to its end. -/
def members : Nat → List Token → Option (List (List Piece × Tree) × List Token)
  | 0, _ => none
  | fuel + 1, .string k :: .colon :: tokens => do
    let (v, rest) ← value fuel tokens
    match rest with
    | .closeObject :: rest => some ([(k, v)], rest)
    | .comma :: rest =>
      let (l, rest) ← members fuel rest
      some ((k, v) :: l, rest)
    | _ => none
  | _ + 1, _ => none

end

/-- The tree of a text that holds exactly one value. Reading a value uses at most two units of
fuel for each of its tokens. -/
def parse (s : String) : Option Tree := do
  let tokens ← scan s
  match value (2 * tokens.length + 1) tokens with
  | some (v, []) => some v
  | _ => none

/-- The text of a string whose surrogates are paired. -/
def text? : Tree → Option String
  | .string pieces => (assemble pieces).map String.ofList
  | _ => none

/-- A whole number below a bound, without a sign. -/
def unsigned? (bound : Nat) : Tree → Option Nat
  | .number ⟨false, whole, false⟩ =>
    let n := whole.foldl (fun n c => 10 * n + (c.toNat - '0'.toNat)) 0
    if n < bound then some n else none
  | _ => none

/-- The items of a list, each read alike. -/
def items? {α : Type} (read : Tree → Option α) : Tree → Option (List α)
  | .array l => l.mapM read
  | _ => none

/-- The only value of a key. -/
def unique? (key : String) (members : List (String × Tree)) : Option Tree :=
  match members.filter (·.1 == key) with
  | [(_, v)] => some v
  | _ => none

/-- The values of the named fields, in that order. An object must have each of them once and may
have others; a list must have exactly their values. -/
def fields? (names : List String) : Tree → Option (List Tree)
  | .array l => if l.length = names.length then some l else none
  | .object members => do
    let members ← members.mapM fun (k, v) => (assemble k).map fun k => (String.ofList k, v)
    names.mapM (unique? · members)
  | _ => none

end Tree

end Rebuild.Json
