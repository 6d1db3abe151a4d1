import Mathlib.Data.List.Basic
import Mathlib.Data.List.TakeWhile
import GlyphStack.Program.Basic

/-!
Places that diagnostics show. A position cuts the text into what stands before its line, the line in
two parts, and what stands behind the line (`exists_line`). Everything that is shown of the position
is read off this one cut: the line is the one that the breaks before it count to when the text is
split at its line breaks, and the caret stands behind the first part of the line.

The further a position, the later its place: a line break in between adds to the lines, and where
there is none, the characters in between add to the column.
-/

namespace GlyphStack.Program

/-! ## 1. Lines -/

section

variable {earlier line later : List Char}

end

variable {program : Program}

section

variable (program : Program) (i : Nat)

end

end GlyphStack.Program
