import GlyphStack.Number.Shortest

/-!
The text of a number: the digits of its shortest decimal, written out in full while the point falls
among the first twenty-one digits or at most six places before them, and with an exponent outside
that range.
-/

namespace GlyphStack.Number

/-- The most digits before the point that are written in full. -/
def maxWholeDigits : Int := 21

/-- The most places that the first digit may stand after the point in full writing. -/
def maxLeadingPlaces : Int := 6

/-- An exponent with its sign. -/
def exponentText (e : Int) : List Char :=
  'e' :: (if e < 0 then '-' else '+') :: Nat.toDigits 10 e.natAbs

/-- Writes digits with the point after the first `point` of them; a point outside the digits is
reached by zeros. -/
def layout (digits : List Char) (point : Int) : List Char :=
  if digits.length ≤ point ∧ point ≤ maxWholeDigits then
    digits ++ List.replicate (point - digits.length).toNat '0'
  else if 0 < point ∧ point ≤ maxWholeDigits then
    digits.take point.toNat ++ '.' :: digits.drop point.toNat
  else if -maxLeadingPlaces < point ∧ point ≤ 0 then
    '0' :: '.' :: List.replicate (-point).toNat '0' ++ digits
  else
    digits.take 1 ++ (if digits.length ≤ 1 then [] else '.' :: digits.drop 1)
      ++ exponentText (point - 1)

/-- The text of a number. Both zeros are written without a sign. -/
def text (x : Float) : List Char :=
  match parts x with
  | .nan => ['N', 'a', 'N']
  | .infinite negative => (if negative then ['-'] else []) ++ ['I', 'n', 'f']
  | .finite negative mantissa exponent =>
      if mantissa = 0 then ['0']
      else
        let decimal := shortest mantissa exponent
        let digits := Nat.toDigits 10 decimal.digits
        (if negative then ['-'] else []) ++ layout digits (digits.length + decimal.exponent)

end GlyphStack.Number
