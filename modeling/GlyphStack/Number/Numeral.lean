import GlyphStack.Number.Binary64

/-!
Decimal numerals: an optional sign, digits with at most one point among them and at least one digit
in all, and an optional exponent. Reading one gives its exact value, and its value gives the double
nearest to it.
-/

namespace GlyphStack.Number

/-- The value `± digits · 10^exponent` of a numeral. -/
structure Numeral where
  negative : Bool
  digits : Nat
  exponent : Int
deriving Repr, DecidableEq

namespace Numeral

/-- Takes a sign off the front. -/
def takeSign : List Char → Bool × List Char
  | '+' :: rest => (false, rest)
  | '-' :: rest => (true, rest)
  | rest => (false, rest)

/-- Takes the digits off the front. -/
def takeDigits (cs : List Char) : List Char × List Char :=
  (cs.takeWhile Char.isDigit, cs.dropWhile Char.isDigit)

/-- No character is lost between the digits and what follows them. -/
theorem takeDigits_append (cs : List Char) : (takeDigits cs).1 ++ (takeDigits cs).2 = cs :=
  List.takeWhile_append_dropWhile

/-- Takes a point and the digits after it off the front. -/
def takeFraction : List Char → List Char × List Char
  | '.' :: rest => takeDigits rest
  | rest => ([], rest)

/-- The number that decimal digits spell. -/
def spelled (digits : List Char) : Nat :=
  Nat.ofDigitChars 10 digits 0

/-- Reads what follows the digits: nothing, or `e` and a signed whole number. -/
def readExponent : List Char → Option Int
  | [] => some 0
  | c :: rest =>
      if c = 'e' ∨ c = 'E' then
        let (negative, rest) := takeSign rest
        let (digits, rest) := takeDigits rest
        if digits.isEmpty || !rest.isEmpty then none
        else some (if negative then -(spelled digits : Int) else spelled digits)
      else none

/-- Reads a whole text as a numeral. -/
def read? (cs : List Char) : Option Numeral :=
  let (negative, rest) := takeSign cs
  let (whole, rest) := takeDigits rest
  let (fraction, rest) := takeFraction rest
  if whole.isEmpty && fraction.isEmpty then none
  else
    (readExponent rest).map fun exponent =>
      { negative, digits := spelled (whole ++ fraction), exponent := exponent - fraction.length }

/-- The double nearest to a numeral. With `n` digits the value lies below `10^(n + exponent)` and
not below a tenth of that, so far beyond the largest and the smallest double no power is formed. -/
def toFloat (numeral : Numeral) : Float :=
  let reach : Int := (Nat.toDigits 10 numeral.digits).length + numeral.exponent
  if numeral.digits = 0 ∨ reach ≤ -324 then ofRatio numeral.negative 0 1
  else if 310 ≤ reach then infinity numeral.negative
  else
    ofRatio numeral.negative (numeral.digits * tenTo numeral.exponent.toNat)
      (tenTo (-numeral.exponent).toNat)

end Numeral

end GlyphStack.Number
