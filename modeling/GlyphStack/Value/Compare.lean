import GlyphStack.Fault
import GlyphStack.Value.Coerce
import GlyphStack.Value.Render

/-!
Three-way comparison of values, and their structural equality.
-/

namespace GlyphStack.Heap

/-- Compares two lists item by item. The first pair that is not equal decides, and if there is none
the lengths do. -/
def compareItems (compareItem : Value → Value → Except Fault (Option Ordering)) :
    List Value → List Value → Except Fault (Option Ordering)
  | [], [] => .ok (some .eq)
  | [], _ :: _ => .ok (some .lt)
  | _ :: _, [] => .ok (some .gt)
  | x :: xs, y :: ys =>
      match compareItem x y with
      | .ok (some .eq) => compareItems compareItem xs ys
      | other => other

/-- Compares two values, opening at most `depth` pairs of arrays in each other; `limit` is what the
fault reports. Numbers compare as numbers, arrays item by item, and any other pair by its texts. One
and the same array is equal to itself without a look inside. -/
def compareWithin (heap : Heap) (limit : Nat) :
    (depth : Nat) → Value → Value → Except Fault (Option Ordering)
  | depth, a, b =>
      if a.isNumeric && b.isNumeric then .ok (Number.order (heap.toNumber a) (heap.toNumber b))
      else
        match a, b, depth with
        | .array left, .array right, depth =>
            if left = right then .ok (some .eq)
            else
              match depth with
              | 0 => .error (.nesting limit)
              | depth + 1 =>
                  compareItems (compareWithin heap limit depth)
                    (heap.read left).toList (heap.read right).toList
        | a, b, _ => .ok (some (compare (heap.render limit a) (heap.render limit b)))

/-- Compares two values; there is no order if a NaN is met. -/
def compare (heap : Heap) (limit : Nat) (a b : Value) : Except Fault (Option Ordering) :=
  heap.compareWithin limit limit a b

/-- Whether two lists agree item by item. -/
def sameItems (sameItem : Value → Value → Bool) : List Value → List Value → Bool
  | [], [] => true
  | x :: xs, y :: ys => sameItem x y && sameItems sameItem xs ys
  | _, _ => false

/-- Whether two values have the same structure, with at most `depth` arrays in each other. -/
def sameWithin (heap : Heap) : (depth : Nat) → Value → Value → Bool
  | _, .string s, .string t => s == t
  | _, .number x, .number y => Number.order x y == some .eq
  | _, .absent, .absent => true
  | depth + 1, .array left, .array right =>
      sameItems (sameWithin heap depth) (heap.read left).toList (heap.read right).toList
  | _, _, _ => false

/-- Whether two values that do not contain themselves have the same structure; arrays without a
cycle lie at most as deep as there are storages. -/
def same (heap : Heap) (a b : Value) : Bool :=
  heap.sameWithin heap.size a b

end GlyphStack.Heap

namespace GlyphStack

/-- The number that a comparison answers. -/
def orderingNumber : Option Ordering → Float
  | some .lt => Number.ofRatio true 1 1
  | some .eq => Number.zero
  | some .gt => Number.ofRatio false 1 1
  | none => Number.nan

end GlyphStack
