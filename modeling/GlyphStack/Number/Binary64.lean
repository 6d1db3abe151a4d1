/-!
Doubles by their bits: taking one apart into an exact value, choosing the double nearest to a
ratio, and the operations that need the exact value, which are order, rounding toward zero and the
remainder of a division. All of it is arithmetic on `Nat` and `Int`.
-/

namespace GlyphStack.Number

/-- A power of two. -/
def twoTo (k : Nat) : Nat := Nat.pow 2 k

/-- A power of ten. -/
def tenTo (k : Nat) : Nat := Nat.pow 10 k

/-- The double that is not a number. -/
def nan : Float := Float.ofBits 0x7FF8000000000000

/-- The zero without a sign. -/
def zero : Float := Float.ofBits 0

/-- The infinity of the given sign. -/
def infinity (negative : Bool) : Float :=
  Float.ofBits (if negative then 0xFFF0000000000000 else 0x7FF0000000000000)

/-- A double taken apart; a finite one is `± mantissa · 2^exponent`. -/
inductive Parts where
  | nan
  | infinite (negative : Bool)
  | finite (negative : Bool) (mantissa : Nat) (exponent : Int)
deriving Repr, DecidableEq

/-- Whether the sign bit is set. -/
def isNegative (x : Float) : Bool :=
  twoTo 63 ≤ x.toBits.toNat

/-- The bits below the sign. On doubles that are numbers they grow with the absolute value. -/
def magnitudeBits (x : Float) : Nat :=
  x.toBits.toNat % twoTo 63

/-- Takes a double apart. The exponent field 0 marks the subnormal numbers, which have no leading
bit of their own, and the field of all ones marks infinities and NaN. -/
def parts (x : Float) : Parts :=
  let field : Nat := magnitudeBits x / twoTo 52
  let fraction : Nat := magnitudeBits x % twoTo 52
  if field = 2047 then
    if fraction = 0 then .infinite (isNegative x) else .nan
  else if field = 0 then .finite (isNegative x) fraction (-1074)
  else .finite (isNegative x) (twoTo 52 + fraction) ((field : Int) - 1075)

/-- Whether `x` is not a number. -/
def isNaN (x : Float) : Bool :=
  0x7FF0000000000000 < magnitudeBits x

/-- Whether `x` is a zero of either sign. -/
def isZero (x : Float) : Bool :=
  magnitudeBits x = 0

/-! ## Order -/

/-- The place of a double among all doubles: its magnitude bits, counted down from zero for the
negative ones. Both zeros have place 0. -/
def place (x : Float) : Int :=
  if isNegative x then -(magnitudeBits x : Int) else magnitudeBits x

/-- The order of two doubles; there is none if either is NaN. -/
def order (x y : Float) : Option Ordering :=
  if isNaN x || isNaN y then none else some (compare (place x) (place y))

/-! ## The nearest double -/

/-- `num / den` rounded to a whole number, a half going to the even neighbour. -/
def roundHalfEven (num den : Nat) : Nat :=
  let below := num / den
  let rest := num % den
  if den < 2 * rest ∨ (2 * rest = den ∧ below % 2 = 1) then below + 1 else below

/-- `num * 2^shift / den`, rounded; a negative `shift` multiplies the divisor. -/
def roundScaled (num den : Nat) (shift : Int) : Nat :=
  roundHalfEven (num * twoTo shift.toNat) (den * twoTo (-shift).toNat)

/-- The exponent `k` with `2^k ≤ num / den < 2^(k+1)`, for positive `num` and `den`. -/
def ratioLog2 (num den : Nat) : Int :=
  let k : Int := (num.log2 : Int) - den.log2
  if num * twoTo (-k).toNat < den * twoTo k.toNat then k - 1 else k

/-- The magnitude bits of the double nearest to `num / den`. Neighbouring doubles are `2^unit`
apart; the mantissa is counted in these, and one that rounds up to `2^53` carries into the exponent
field as it should. Beyond the largest double the result is infinite. -/
def nearestBits (num den : Nat) : Nat :=
  if num = 0 ∨ den = 0 then 0
  else
    let unit := max (ratioLog2 num den - 52) (-1074)
    min ((unit + 1074).toNat * twoTo 52 + roundScaled num den (-unit)) 0x7FF0000000000000

/-- The double nearest to `± num / den`. -/
def ofRatio (negative : Bool) (num den : Nat) : Float :=
  Float.ofBits (UInt64.ofNat ((if negative then twoTo 63 else 0) + nearestBits num den))

/-- The double nearest to `± mantissa · 2^exponent`. -/
def ofScaled (negative : Bool) (mantissa : Nat) (exponent : Int) : Float :=
  ofRatio negative (mantissa * twoTo exponent.toNat) (twoTo (-exponent).toNat)

/-! ## Rounding toward zero -/

/-- A double rounded toward zero. -/
inductive Truncated where
  | nan
  | infinite (negative : Bool)
  | whole (n : Int)
deriving Repr, DecidableEq

/-- Drops the fraction of a double. -/
def truncate (x : Float) : Truncated :=
  match parts x with
  | .nan => .nan
  | .infinite negative => .infinite negative
  | .finite negative mantissa exponent =>
      let size := mantissa * twoTo exponent.toNat / twoTo (-exponent).toNat
      .whole (if negative then -(size : Int) else size)

/-- The largest count of values that a machine word holds. -/
def maxCount : Nat := twoTo 64 - 1

/-- A rounded double as a count: nothing for NaN and below zero, at most `maxCount`. -/
def Truncated.toCount : Truncated → Nat
  | .nan => 0
  | .infinite negative => if negative then 0 else maxCount
  | .whole n => min n.toNat maxCount

/-! ## Remainder -/

/-- The remainder of a division that rounds the quotient toward zero. It has the sign of `x` and is
exact: it is a whole multiple of the smaller of the two units. -/
def remainder (x y : Float) : Float :=
  match parts x, parts y with
  | .finite negative m e, .finite _ n f =>
      if n = 0 then nan
      else
        let unit := min e f
        ofScaled negative ((m * twoTo (e - unit).toNat) % (n * twoTo (f - unit).toNat)) unit
  | .finite _ _ _, .infinite _ => x
  | _, _ => nan

end GlyphStack.Number
