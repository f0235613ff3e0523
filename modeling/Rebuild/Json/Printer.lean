import Rebuild.Json.Value

/-!
# JSON text

Two spellings of a value: compact, without any blank, and indented by two spaces a level with one
item on a line. In strings only the quote, the backslash and the controls below U+0020 are escaped.
-/
namespace Rebuild.Json

/-- A control as `\u` and four lowercase digits. -/
def unicodeEscape (n : Nat) : List Char :=
  '\\' :: 'u' :: ([n / 4096, n / 256 % 16, n / 16 % 16, n % 16].map Nat.digitChar)

/-- One character inside a string. -/
def escapeChar (c : Char) : List Char :=
  match c with
  | '"' => ['\\', '"']
  | '\\' => ['\\', '\\']
  | '\x08' => ['\\', 'b']
  | '\x0c' => ['\\', 'f']
  | '\n' => ['\\', 'n']
  | '\r' => ['\\', 'r']
  | '\t' => ['\\', 't']
  | c => if c.toNat < 0x20 then unicodeEscape c.toNat else [c]

/-- A string with its quotes. -/
def quote (s : String) : List Char := '"' :: (s.toList.flatMap escapeChar ++ ['"'])

/-- The text of a number or a word. -/
def scalarText : Json → List Char
  | .null => "null".toList
  | .bool b => (if b then "true" else "false").toList
  | .integer n => (toString n).toList
  | .float x => (x.text .double .double).toList
  | .string s => quote s
  | .array _ | .object _ => []

mutual

/-- The compact spelling. -/
def compactChars : Json → List Char
  | .array items => '[' :: (compactItems items ++ [']'])
  | .object members => '\x7b' :: (compactMembers members ++ ['\x7d'])
  | scalar => scalarText scalar

/-- Items, separated by commas. -/
def compactItems : List Json → List Char
  | [] => []
  | [v] => compactChars v
  | v :: rest => compactChars v ++ ',' :: compactItems rest

/-- Members, separated by commas. -/
def compactMembers : List (String × Json) → List Char
  | [] => []
  | [(k, v)] => quote k ++ ':' :: compactChars v
  | (k, v) :: rest => quote k ++ ':' :: (compactChars v ++ ',' :: compactMembers rest)

end

/-- A new line at a level of nesting. -/
def indentation (level : Nat) : List Char := '\n' :: List.replicate (2 * level) ' '

mutual

/-- The indented spelling at a level of nesting. -/
def prettyChars (level : Nat) : Json → List Char
  | .array [] => ['[', ']']
  | .object [] => ['\x7b', '\x7d']
  | .array items => '[' :: (prettyItems (level + 1) items ++ (indentation level ++ [']']))
  | .object members =>
    '\x7b' :: (prettyMembers (level + 1) members ++ (indentation level ++ ['\x7d']))
  | scalar => scalarText scalar

/-- Items, each on a line of its own. -/
def prettyItems (level : Nat) : List Json → List Char
  | [] => []
  | [v] => indentation level ++ prettyChars level v
  | v :: rest => indentation level ++ (prettyChars level v ++ ',' :: prettyItems level rest)

/-- Members, each on a line of its own. -/
def prettyMembers (level : Nat) : List (String × Json) → List Char
  | [] => []
  | [(k, v)] => indentation level ++ (quote k ++ ':' :: ' ' :: prettyChars level v)
  | (k, v) :: rest =>
    indentation level ++
      (quote k ++ ':' :: ' ' :: (prettyChars level v ++ ',' :: prettyMembers level rest))

end

/-- The compact text of a value. -/
def compact (v : Json) : String := String.ofList (compactChars v)

/-- The indented text of a value. -/
def pretty (v : Json) : String := String.ofList (prettyChars 0 v)

end Rebuild.Json
