/-!
# Binary floating point numbers

A finite number is a sign and a magnitude `mantissa * 2 ^ exponent`. A format bounds both, and every
positive ratio of naturals rounds to the nearest number of a format, a tie to the even mantissa.

* `FloatFormat.round`: the nearest number of a format.
* `FloatFormat.read?`: the number that a decimal text denotes.
-/
namespace Rebuild

/-- How many bits a mantissa has, and the range of the exponents. -/
structure FloatFormat where
  precision : Nat
  minExponent : Int
  maxExponent : Int
  deriving DecidableEq, Repr

namespace FloatFormat

/-- The format with 64 bits. -/
def double : FloatFormat := ⟨53, -1074, 971⟩

/-- The format with 32 bits. -/
def single : FloatFormat := ⟨24, -149, 104⟩

end FloatFormat

/-- A number of some format: its sign, and `mantissa * 2 ^ exponent`. -/
structure FiniteFloat where
  negative : Bool
  mantissa : Nat
  exponent : Int
  deriving DecidableEq, Repr

/-- A floating point value. -/
inductive FloatValue where
  | finite (x : FiniteFloat)
  | infinite (negative : Bool)
  | nan
  deriving DecidableEq, Repr

/-- `num / den`, rounded to the nearest natural number, a tie to the even one. -/
def roundDiv (num den : Nat) : Nat :=
  let q := num / den
  let twice := 2 * (num % den)
  if twice < den then q
  else if den < twice then q + 1
  else if q % 2 = 0 then q else q + 1

/-- The ratio `num / den` divided by `2 ^ q`. -/
def scaleDown (num den : Nat) (q : Int) : Nat × Nat :=
  if 0 ≤ q then (num, den * Nat.pow 2 q.toNat) else (num * Nat.pow 2 (-q).toNat, den)

namespace FloatFormat

/-- The number of a format that is nearest to `num / den`; infinite if all its numbers are too
small. -/
def round (f : FloatFormat) (negative : Bool) (num den : Nat) : FloatValue :=
  if num = 0 then .finite ⟨negative, 0, f.minExponent⟩
  else
    let estimate : Int := (num.log2 : Int) - den.log2 - f.precision
    let lowest : Int := if estimate < f.minExponent then f.minExponent else estimate
    let atExponent (q : Int) : Nat :=
      let (n, d) := scaleDown num den q
      roundDiv n d
    -- the estimate is at most one too small
    let first := atExponent lowest
    let (m, q) :=
      if first < Nat.pow 2 f.precision then (first, lowest)
      else (atExponent (lowest + 1), lowest + 1)
    let (m, q) := if m < Nat.pow 2 f.precision then (m, q) else (m / 2, q + 1)
    if f.maxExponent < q then .infinite negative else .finite ⟨negative, m, q⟩

/-- The same number with the longest mantissa that the format has for it. -/
def normalize (f : FloatFormat) (x : FiniteFloat) : FiniteFloat :=
  if x.mantissa = 0 then ⟨x.negative, 0, f.minExponent⟩
  else
    let room : Int := f.precision - 1 - x.mantissa.log2
    let above := x.exponent - f.minExponent
    let shift := (if above < room then above else room).toNat
    ⟨x.negative, x.mantissa * Nat.pow 2 shift, x.exponent - shift⟩

/-- The digits at the start of a text, and the rest. -/
def splitDigits (cs : List Char) : List Char × List Char :=
  (cs.takeWhile Char.isDigit, cs.dropWhile Char.isDigit)

/-- The number that decimal digits spell. -/
def digitsValue (ds : List Char) : Nat := ds.foldl (fun n c => 10 * n + (c.toNat - '0'.toNat)) 0

/-- The sign of a text and what follows it. -/
def splitSign : List Char → Bool × List Char
  | '-' :: rest => (true, rest)
  | '+' :: rest => (false, rest)
  | rest => (false, rest)

/-- The exponent part of a decimal text, which must be all that is left. -/
def readExponent? : List Char → Option Int
  | [] => some 0
  | e :: rest =>
    if e = 'e' ∨ e = 'E' then
      let (negative, rest) := splitSign rest
      let (ds, rest) := splitDigits rest
      if ds = [] ∨ rest ≠ [] then none
      else some (if negative then -(digitsValue ds : Int) else digitsValue ds)
    else none

/-- An exponent beyond which no format tells numbers apart. -/
def farExponent : Int := 100000

/-- Rounds `digits * 10 ^ exponent`. -/
def roundDecimal (f : FloatFormat) (negative : Bool) (digits : List Char) (exponent : Int) :
    FloatValue :=
  let n := digitsValue digits
  if n = 0 ∨ exponent + digits.length < -farExponent then .finite ⟨negative, 0, f.minExponent⟩
  else if farExponent < exponent then .infinite negative
  else if 0 ≤ exponent then f.round negative (n * Nat.pow 10 exponent.toNat) 1
  else f.round negative n (Nat.pow 10 (-exponent).toNat)

/-- The number that a decimal text denotes, rounded to the format. -/
def read? (f : FloatFormat) (s : String) : Option FloatValue :=
  let (negative, cs) := splitSign s.toList
  let word := cs.map Char.toLower
  if word = "inf".toList ∨ word = "infinity".toList then some (.infinite negative)
  else if word = "nan".toList then some .nan
  else
    let (whole, rest) := splitDigits cs
    let (fraction, rest) :=
      match rest with
      | '.' :: rest => splitDigits rest
      | rest => ([], rest)
    if whole = [] ∧ fraction = [] then none
    else (readExponent? rest).map fun e =>
      f.roundDecimal negative (whole ++ fraction) (e - fraction.length)

end FloatFormat

end Rebuild
