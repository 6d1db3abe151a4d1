/-!
Sets of characters written as ranges of code points, the form in which character properties are
published.
-/

namespace GlyphStack.Text

/-- Ascending, disjoint ranges of code points, each with its first and its last member. -/
structure CodeRanges where
  entries : List (Nat × Nat)

/-- Looks for the range of `n`; the ranges ascend, so the search ends at the first one above. -/
def findRange (n : Nat) : List (Nat × Nat) → Bool
  | [] => false
  | (first, last) :: rest => first ≤ n && (n ≤ last || findRange n rest)

/-- Whether the code point `n` is in the set. -/
def CodeRanges.contains (ranges : CodeRanges) (n : Nat) : Bool :=
  findRange n ranges.entries

end GlyphStack.Text
