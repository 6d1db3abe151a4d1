import GlyphStack.Store.Basic

/-!
Items of an array by number. A negative number counts from the end of the array; the number comes
from a double that was rounded toward zero.
-/

namespace GlyphStack

/-- The place from the start of an array that a whole number means: a negative one counts from the
end. -/
def fromStart (size : Nat) (n : Int) : Int :=
  if n < 0 then n + size else n

/-- The index of the item that is read or removed; not-a-number means the first one. -/
def itemIndex? (size : Nat) (index : Number.Truncated) : Option Nat :=
  let within (n : Int) : Option Nat :=
    let place := fromStart size n
    if 0 ≤ place ∧ place < size then some place.toNat else none
  match index with
  | .nan => within 0
  | .infinite _ => none
  | .whole n => within n

/-- An array after an assignment to an item: the place after the last item takes a new one, and so
does not-a-number. The item that is as far from the end as the array is long cannot be assigned. -/
def assignItem (items : Array Value) (index : Number.Truncated) (v : Value) : Array Value :=
  match index with
  | .nan => items.push v
  | .infinite _ => items
  | .whole n =>
      if n = items.size then items.push v
      else if -(items.size : Int) < n ∧ n < items.size then
        items.setIfInBounds (fromStart items.size n).toNat v
      else items

/-- An array without the item of an index. -/
def removeItem (items : Array Value) (index : Number.Truncated) : Array Value :=
  match itemIndex? items.size index with
  | some i => items.eraseIdxIfInBounds i
  | none => items

end GlyphStack
