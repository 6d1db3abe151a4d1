import GlyphStack.Value.Coerce
import GlyphStack.Value.Render

/-!
Addition, which joins arrays and texts as well as it adds numbers, and the operators that work on
numbers only.
-/

namespace GlyphStack

/-- The operators that take any two values as numbers. -/
inductive Operator where
  | difference
  | product
  | quotient
  | remainder
deriving DecidableEq, Repr

/-- The character of an operator. -/
def Operator.symbol : Operator → Char
  | .difference => '-'
  | .product => '*'
  | .quotient => '/'
  | .remainder => '%'

/-- The operator of a character. -/
def Operator.ofSymbol? : Char → Option Operator
  | '-' => some .difference
  | '*' => some .product
  | '/' => some .quotient
  | '%' => some .remainder
  | _ => none

/-- Applies an operator to two numbers. -/
def Operator.apply : Operator → Float → Float → Float
  | .difference, x, y => x - y
  | .product, x, y => x * y
  | .quotient, x, y => x / y
  | .remainder, x, y => Number.remainder x y

namespace Heap

/-- Applies an operator to the numbers of two values. -/
def arithmetic (heap : Heap) (operator : Operator) (a b : Value) : Float :=
  operator.apply (heap.toNumber a) (heap.toNumber b)

/-- The sum of two values: of numbers their sum; of two arrays a new one with the items of both; of
an array and another value a new array in which that value comes first or last, as it stands in the
sum; otherwise the text of both. -/
def add (heap : Heap) (limit : Nat) (a b : Value) : Value × Heap :=
  if a.isNumeric && b.isNumeric then (.number (heap.toNumber a + heap.toNumber b), heap)
  else
    let joined (items : Array Value) : Value × Heap :=
      let (ref, heap) := heap.alloc items
      (.array ref, heap)
    match a, b with
    | .array left, .array right => joined (heap.read left ++ heap.read right)
    | .array left, item => joined ((heap.read left).push item)
    | item, .array right => joined (#[item] ++ heap.read right)
    | _, _ => (.string (heap.render limit a ++ heap.render limit b), heap)

end Heap

end GlyphStack
