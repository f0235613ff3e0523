import Rebuild.Decimal.Binary

/-!
# Shortest decimal text

The digits of a finite number are the fewest that read back as the number in its format, and of
those the nearest to it, a tie going to the even last digit. The text is positional while the
exponent of the leading digit lies in a range, and keeps `.0` for an integral value; outside the
range it is scientific, without sign or padding in the exponent.

* `shortest`: the digits and the exponent of the last one.
* `DecimalLayout`: the range of exponents that are written positionally.
-/
namespace Rebuild

/-- A natural number times a power of ten. -/
structure Decimal where
  digits : Nat
  exponent : Int
  deriving DecidableEq, Repr

/-- The ratio of a natural number and `10 ^ e`. -/
def overPowerOfTen (n den : Nat) (e : Int) : Nat × Nat :=
  if 0 ≤ e then (n, den * Nat.pow 10 e.toNat) else (n * Nat.pow 10 (-e).toNat, den)

/-- The exponent `e` with `10 ^ e ≤ num / den < 10 ^ (e + 1)`. -/
def leadingExponent (num den : Nat) : Int :=
  if den ≤ num then ((Nat.toDigits 10 (num / den)).length : Int) - 1
  else
    let length := (Nat.toDigits 10 (den / num)).length
    if num * Nat.pow 10 (length - 1) = den then 1 - (length : Int) else -(length : Int)

/-- The real numbers that round to a positive number: between `low / den` and `high / den`, the
ends included for an even mantissa. -/
structure RoundingInterval where
  low : Nat
  value : Nat
  high : Nat
  den : Nat
  closed : Bool
  deriving DecidableEq, Repr

def RoundingInterval.of (f : FloatFormat) (x : FiniteFloat) : RoundingInterval :=
  let m := x.mantissa
  -- below a power of two the numbers lie twice as dense
  let below := if m = Nat.pow 2 (f.precision - 1) ∧ f.minExponent < x.exponent then 1 else 2
  let q := x.exponent - 2
  let scale := if 0 ≤ q then Nat.pow 2 q.toNat else 1
  let den := if 0 ≤ q then 1 else Nat.pow 2 (-q).toNat
  ⟨(4 * m - below) * scale, 4 * m * scale, (4 * m + 2) * scale, den, m % 2 = 0⟩

/-- Whether `n * 10 ^ e` lies in the interval. -/
def RoundingInterval.contains (i : RoundingInterval) (n : Nat) (e : Int) : Bool :=
  let left (bound : Nat) : Nat × Nat :=
    if 0 ≤ e then (bound, n * Nat.pow 10 e.toNat * i.den)
    else (bound * Nat.pow 10 (-e).toNat, n * i.den)
  let (l, x) := left i.low
  let (h, y) := left i.high
  if i.closed then l ≤ x && y ≤ h else l < x && y < h

/-- The multiple of `10 ^ e` in the interval that is nearest to the value, if there is one. -/
def RoundingInterval.onGrid? (i : RoundingInterval) (e : Int) : Option Nat :=
  let (n, d) := overPowerOfTen i.value i.den e
  let down := n / d
  match i.contains down e, i.contains (down + 1) e with
  | true, true => some (roundDiv n d)
  | true, false => some down
  | false, true => some (down + 1)
  | false, false => none

/-- The shortest decimal among those with at least the digits down to `10 ^ e`; `fuel` more digits
are tried. -/
def RoundingInterval.search (i : RoundingInterval) (e : Int) : Nat → Decimal
  | 0 => ⟨(overPowerOfTen i.value i.den e).1 / (overPowerOfTen i.value i.den e).2, e⟩
  | fuel + 1 =>
    match i.onGrid? e with
    | some n => ⟨n, e⟩
    | none => i.search (e - 1) fuel

/-- Moves the zeros at the end of the digits into the exponent. -/
def Decimal.trim (d : Decimal) : Nat → Decimal
  | 0 => d
  | fuel + 1 =>
    if d.digits ≠ 0 ∧ d.digits % 10 = 0 then
      Decimal.trim ⟨d.digits / 10, d.exponent + 1⟩ fuel
    else d

/-- The shortest decimal that rounds to a positive number of the format. Seventeen digits suffice
for every format of at most 64 bits. -/
def shortest (f : FloatFormat) (x : FiniteFloat) : Decimal :=
  let i := RoundingInterval.of f (f.normalize x)
  let d := i.search (leadingExponent i.value i.den) 17
  d.trim 400

/-- Which exponents of the leading digit are written positionally: `plainFrom ≤ e < plainBelow`. -/
structure DecimalLayout where
  plainFrom : Int
  plainBelow : Int

/-- Numbers of 64 bits are positional from `0.00001` and below `10 ^ 16`. -/
def DecimalLayout.double : DecimalLayout := ⟨-5, 16⟩

/-- Numbers of 32 bits are positional from `0.000001` and below `10 ^ 13`. -/
def DecimalLayout.single : DecimalLayout := ⟨-6, 13⟩

/-- A decimal in the layout. -/
def DecimalLayout.text (layout : DecimalLayout) (d : Decimal) : String :=
  let ds := Nat.toDigits 10 d.digits
  let leading : Int := d.exponent + ds.length - 1
  if layout.plainFrom ≤ leading ∧ leading < layout.plainBelow then
    if 0 ≤ d.exponent then
      String.ofList (ds ++ List.replicate d.exponent.toNat '0') ++ ".0"
    else if 0 ≤ leading then
      let whole := leading.toNat + 1
      String.ofList (ds.take whole) ++ "." ++ String.ofList (ds.drop whole)
    else
      "0." ++ String.ofList (List.replicate (-leading - 1).toNat '0' ++ ds)
  else
    let head := String.ofList (ds.take 1)
    let tail := if ds.length = 1 then "" else "." ++ String.ofList (ds.drop 1)
    s!"{head}{tail}e{leading}"

/-- The shortest text of a finite number. -/
def FiniteFloat.text (f : FloatFormat) (layout : DecimalLayout) (x : FiniteFloat) : String :=
  let magnitude := if x.mantissa = 0 then "0.0" else layout.text (shortest f x)
  if x.negative then "-" ++ magnitude else magnitude

end Rebuild
