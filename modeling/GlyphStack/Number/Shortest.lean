import GlyphStack.Number.Binary64

/-!
The shortest decimal of a double: of all decimals that round to it, those with the fewest digits,
and of these the one nearest to it. On the grid of decimals with a given number of digits only the
two neighbours of the exact value can be that, so each grid is tried in turn, from one digit up.
-/

namespace GlyphStack.Number

/-- The decimal `digits · 10^exponent`. -/
structure Decimal where
  digits : Nat
  exponent : Int
deriving Repr, DecidableEq

/-- The same decimal without zeros at the end of its digits. -/
def Decimal.trimmed (d : Decimal) : Decimal :=
  if d.digits ≠ 0 ∧ d.digits % 10 = 0 then
    Decimal.trimmed { digits := d.digits / 10, exponent := d.exponent + 1 }
  else d
termination_by d.digits
decreasing_by omega

/-- The exponent `k` with `10^k ≤ num / den < 10^(k+1)`, for positive `num` and `den`: one less than
the number of digits before the point, or minus the number of digits that the largest whole number
below the inverse has. -/
def ratioLog10 (num den : Nat) : Int :=
  if den ≤ num then ((Nat.toDigits 10 (num / den)).length : Int) - 1
  else -((Nat.toDigits 10 ((den - 1) / num)).length : Int)

/-- The numbers that round to `mantissa · 2^exponent`, in quarters of `2^exponent`: how far they
reach below and above it, and whether the ends belong to them, which they do for an even mantissa.
Below a power of two the doubles lie twice as close. -/
structure Reach where
  below : Nat
  above : Nat
  closed : Bool

/-- The reach of a positive double given by its parts. -/
def Reach.of (mantissa : Nat) (exponent : Int) : Reach where
  below := if mantissa = twoTo 52 ∧ -1074 < exponent then 1 else 2
  above := 2
  closed := mantissa % 2 = 0

/-- `x` lies before `y`, or at it where the ends belong. -/
def Reach.within (reach : Reach) (x y : Nat) : Bool :=
  x < y || (reach.closed && x == y)

/-- The decimal on the grid of multiples of `10^step` that rounds to the double, if there is one:
the nearer of the two neighbours, the upper one at equal distance. The double is `4 · mantissa`
quarters, and one quarter is `num / den` grid steps. -/
def onGrid (mantissa : Nat) (reach : Reach) (num den : Nat) : Option Nat :=
  let value := 4 * mantissa * num
  let lower := value / den
  let lowerFits := reach.within ((4 * mantissa - reach.below) * num) (lower * den)
  let upperFits := reach.within ((lower + 1) * den) ((4 * mantissa + reach.above) * num)
  if lowerFits && (!upperFits || 2 * (value % den) < den) then some lower
  else if upperFits then some (lower + 1)
  else none

/-- Tries the grid of multiples of `10^step` and then `finer` finer ones; the finest one is taken
as it is. -/
def firstOnGrid (mantissa : Nat) (exponent : Int) : (finer : Nat) → (step : Int) → Decimal
  | finer, step =>
      let num := twoTo (exponent - 2).toNat * tenTo (-step).toNat
      let den := twoTo (2 - exponent).toNat * tenTo step.toNat
      match onGrid mantissa (Reach.of mantissa exponent) num den, finer with
      | some digits, _ => { digits, exponent := step }
      | none, 0 => { digits := 4 * mantissa * num / den, exponent := step }
      | none, finer + 1 => firstOnGrid mantissa exponent finer (step - 1)

/-- The shortest decimal of the positive double `mantissa · 2^exponent`; seventeen digits tell all
doubles apart. -/
def shortest (mantissa : Nat) (exponent : Int) : Decimal :=
  let leading := ratioLog10 (mantissa * twoTo exponent.toNat) (twoTo (-exponent).toNat)
  (firstOnGrid mantissa exponent 16 leading).trimmed

end GlyphStack.Number
