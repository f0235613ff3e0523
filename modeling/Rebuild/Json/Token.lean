/-!
# JSON tokens

The lexical form of JSON texts (RFC 8259). A string keeps its `\u` escapes as code units, because a
reader that skips a value accepts unpaired surrogates while one that wants its text does not.

* `Json.Token.scan`: the tokens of a text; none if some character starts no token.
* `Json.assemble`: the text of a string, if its surrogates are paired.
-/
namespace Rebuild.Json

/-- A part of a string: a character, or the code unit of a `\u` escape. -/
inductive Piece where
  | char (c : Char)
  | unit (n : Nat)
  deriving DecidableEq, Repr

/-- The value of four hexadecimal digits. -/
def hexUnit? (cs : List Char) : Option Nat :=
  cs.foldlM (fun n c =>
    if '0' ≤ c ∧ c ≤ '9' then some (16 * n + (c.toNat - '0'.toNat))
    else if 'a' ≤ c ∧ c ≤ 'f' then some (16 * n + (c.toNat - 'a'.toNat + 10))
    else if 'A' ≤ c ∧ c ≤ 'F' then some (16 * n + (c.toNat - 'A'.toNat + 10))
    else none) 0

/-- The character that a short escape stands for. -/
def shortEscape? : Char → Option Char
  | '"' => some '"'
  | '\\' => some '\\'
  | '/' => some '/'
  | 'b' => some '\x08'
  | 'f' => some '\x0c'
  | 'n' => some '\n'
  | 'r' => some '\r'
  | 't' => some '\t'
  | _ => none

/-- Reads a string whose opening quote has been read; also gives what follows its closing quote. -/
def takeString : List Char → Option (List Piece × List Char)
  | [] => none
  | '"' :: rest => some ([], rest)
  | '\\' :: 'u' :: a :: b :: c :: d :: rest => do
    let n ← hexUnit? [a, b, c, d]
    let (pieces, rest) ← takeString rest
    return (.unit n :: pieces, rest)
  | '\\' :: e :: rest => do
    let c ← shortEscape? e
    let (pieces, rest) ← takeString rest
    return (.char c :: pieces, rest)
  | c :: rest =>
    if c.toNat < 0x20 ∨ c = '\\' then none
    else do
      let (pieces, rest) ← takeString rest
      return (.char c :: pieces, rest)

def isHighSurrogate (n : Nat) : Bool := 0xD800 ≤ n && n < 0xDC00

def isLowSurrogate (n : Nat) : Bool := 0xDC00 ≤ n && n < 0xE000

/-- The characters of a string; none if a surrogate stands alone. -/
def assemble : List Piece → Option (List Char)
  | [] => some []
  | .char c :: rest => (c :: ·) <$> assemble rest
  | .unit high :: .unit low :: rest =>
    if isHighSurrogate high then
      if isLowSurrogate low then
        (Char.ofNat (0x10000 + (high - 0xD800) * 0x400 + (low - 0xDC00)) :: ·) <$> assemble rest
      else none
    else if isLowSurrogate high then none
    else (Char.ofNat high :: ·) <$> assemble (.unit low :: rest)
  | .unit n :: rest =>
    if isHighSurrogate n || isLowSurrogate n then none else (Char.ofNat n :: ·) <$> assemble rest

/-- A number as it is spelled: its sign, its whole digits, and whether more follows them. -/
structure NumberText where
  negative : Bool
  whole : List Char
  fractional : Bool
  deriving DecidableEq, Repr

/-- At least one digit, and what follows the digits. -/
def takeDigits (cs : List Char) : Option (List Char × List Char) :=
  if (cs.takeWhile Char.isDigit).isEmpty then none
  else some (cs.takeWhile Char.isDigit, cs.dropWhile Char.isDigit)

/-- The whole part of a number: a zero, or digits that do not start with one. -/
def takeWhole : List Char → Option (List Char × List Char)
  | '0' :: rest => some (['0'], rest)
  | cs => takeDigits cs

/-- The fraction of a number, if there is one; gives what follows. -/
def takeFraction : List Char → Option (Bool × List Char)
  | '.' :: rest => do
    let (_, rest) ← takeDigits rest
    return (true, rest)
  | cs => some (false, cs)

/-- The exponent of a number, if there is one; gives what follows. -/
def takeExponent : List Char → Option (Bool × List Char)
  | e :: rest =>
    if e = 'e' ∨ e = 'E' then do
      let rest := match rest with
        | '+' :: r => r
        | '-' :: r => r
        | r => r
      let (_, rest) ← takeDigits rest
      return (true, rest)
    else some (false, e :: rest)
  | [] => some (false, [])

/-- A number without its sign; gives what follows. -/
def takeNumber (negative : Bool) (cs : List Char) : Option (NumberText × List Char) := do
  let (whole, rest) ← takeWhole cs
  let (fraction, rest) ← takeFraction rest
  let (exponent, rest) ← takeExponent rest
  return (⟨negative, whole, fraction || exponent⟩, rest)

/-- A token. -/
inductive Token where
  | openArray
  | closeArray
  | openObject
  | closeObject
  | comma
  | colon
  | null
  | bool (b : Bool)
  | number (n : NumberText)
  | string (pieces : List Piece)
  deriving DecidableEq, Repr

/-- The token of a single character. -/
def punctuation? : Char → Option Token
  | '[' => some .openArray
  | ']' => some .closeArray
  | '\x7b' => some .openObject
  | '\x7d' => some .closeObject
  | ',' => some .comma
  | ':' => some .colon
  | _ => none

def isBlank (c : Char) : Bool := c == ' ' || c == '\n' || c == '\t' || c == '\r'

/-- The token at the start of a text that starts with no blank, and what follows it. -/
def takeToken : List Char → Option (Token × List Char)
  | [] => none
  | 'n' :: 'u' :: 'l' :: 'l' :: rest => some (.null, rest)
  | 't' :: 'r' :: 'u' :: 'e' :: rest => some (.bool true, rest)
  | 'f' :: 'a' :: 'l' :: 's' :: 'e' :: rest => some (.bool false, rest)
  | '"' :: rest => (takeString rest).map fun (pieces, rest) => (.string pieces, rest)
  | '-' :: rest => (takeNumber true rest).map fun (n, rest) => (.number n, rest)
  | c :: rest =>
    match punctuation? c with
    | some t => some (t, rest)
    | none => (takeNumber false (c :: rest)).map fun (n, rest) => (.number n, rest)

/-- The tokens of a text, with fuel for each character. -/
def scanFrom : Nat → List Char → Option (List Token)
  | _, [] => some []
  | 0, _ :: _ => none
  | fuel + 1, c :: rest =>
    if isBlank c then scanFrom fuel rest
    else do
      let (t, rest) ← takeToken (c :: rest)
      return t :: (← scanFrom fuel rest)

/-- The tokens of a text. Every token takes at least one character, so its length is fuel enough. -/
def scan (s : String) : Option (List Token) := scanFrom s.toList.length s.toList

end Rebuild.Json
