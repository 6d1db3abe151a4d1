import GlyphStack.Program.Loops

/-!
Programs: a text, where it comes from, and its loops. Positions count characters from 0; lines and
columns, which diagnostics show, count from 1.
-/

namespace GlyphStack

/-- Where a program text comes from: a name, and the line and column of its first character. -/
structure Origin where
  name : String := "<main>"
  line : Nat := 1
  column : Nat := 1
deriving DecidableEq, Repr

/-- A program text with its loops. -/
structure Program where
  text : List Char
  origin : Origin := {}
  loops : Program.LoopTable := Program.LoopTable.ofText text
  loops_eq : loops = Program.LoopTable.ofText text := by rfl

namespace Program

/-- The program of a text. -/
def ofString (code : String) (origin : Origin := {}) : Program where
  text := code.toList
  origin := origin

/-- The same text from another place. -/
def withOrigin (program : Program) (origin : Origin) : Program :=
  { program with origin }

/-- How many characters the text has. -/
def length (program : Program) : Nat :=
  program.text.length

/-- The text from a position on. -/
def rest (program : Program) (position : Nat) : List Char :=
  program.text.drop position

/-- What stands on the line of a position before it. -/
def lineBefore (program : Program) (position : Nat) : List Char :=
  ((program.text.take position).reverse.takeWhile (· ≠ '\n')).reverse

/-- What stands on the line of a position from it on. -/
def lineAfter (program : Program) (position : Nat) : List Char :=
  (program.rest position).takeWhile (· ≠ '\n')

/-- The line that holds a position; past the end that is the last line. -/
def lineText (program : Program) (position : Nat) : List Char :=
  program.lineBefore position ++ program.lineAfter position

/-- The column of a position within its line of the text. -/
def columnInLine (program : Program) (position : Nat) : Nat :=
  (program.lineBefore position).length + 1

/-- Line and column of a position where the text comes from. Only the first line of the text may
start further right than column 1. -/
def lineColumn (program : Program) (position : Nat) : Nat × Nat :=
  let breaks := (program.text.take position).count '\n'
  let column := program.columnInLine position
  (program.origin.line + breaks,
    if breaks = 0 then column + (program.origin.column - 1) else column)

/-- A position as diagnostics show it. -/
def traceFrame (program : Program) (position : Nat) : TraceFrame :=
  let (line, column) := program.lineColumn position
  { name := program.origin.name, line, column
    source := String.ofList (program.lineText position)
    caret := program.columnInLine position }

end Program

end GlyphStack
