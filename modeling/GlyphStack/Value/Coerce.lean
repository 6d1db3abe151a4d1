import GlyphStack.Text.Blank
import GlyphStack.Number.Numeral
import GlyphStack.Value.Basic

/-!
Values as truth values and as numbers.
-/

namespace GlyphStack

/-- The number that a text stands for. Blank text is zero, infinities and NaN have names, anything
else is a decimal numeral or not a number. -/
def readNumber (text : String) : Float :=
  let trimmed := Text.trim text.toList
  let named := String.ofList trimmed
  if trimmed = [] then Number.zero
  else if named = "Inf" ∨ named = "+Inf" ∨ named = "Infinity" ∨ named = "+Infinity" then
    Number.infinity false
  else if named = "-Inf" ∨ named = "-Infinity" then Number.infinity true
  else
    match Number.Numeral.read? trimmed with
    | some numeral => numeral.toFloat
    | none => Number.nan

namespace Value

/-- Numbers and absent values: what addition and comparison take as numbers. -/
def isNumeric : Value → Bool
  | .number _ | .absent => true
  | .string _ | .array _ => false

/-- Whether a value counts as true: a number that is not zero (so NaN does), a text with a
character, any array. -/
def isTrue : Value → Bool
  | .absent => false
  | .number x => !Number.isZero x
  | .string text => !text.isEmpty
  | .array _ => true

/-- The number of a value that is no array, NaN for an array. -/
def scalarNumber : Value → Float
  | .number x => x
  | .absent => Number.zero
  | .string text => readNumber text
  | .array _ => Number.nan

end Value

/-- The number of a value. An empty array is zero, and an array of one value that is no array
itself is that value's number. -/
def Heap.toNumber (heap : Heap) : Value → Float
  | .array ref =>
      match (heap.read ref).toList with
      | [] => Number.zero
      | [item] => item.scalarNumber
      | _ => Number.nan
  | v => v.scalarNumber

end GlyphStack
