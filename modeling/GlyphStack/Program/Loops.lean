import GlyphStack.Program.Lexeme

/-!
Loops in a program text. Both ways out of a body and the way back to its start are found from the
units of the text alone, so a brace inside a literal never counts.
-/

namespace GlyphStack.Program

/-- The loops of a text: for the position of each loop end that a loop head belongs to, where the
body starts; and where the text could not be read on. -/
structure LoopTable where
  bodies : List (Nat × Nat)
  stopped : Option (Nat × Malformation)
deriving DecidableEq, Repr

/-- Pairs loop ends with loop heads; `heads` are the ones still open, innermost first. A loop end
without an open head is passed over. -/
def pairLoops : (heads : List Nat) → List Lexeme → List (Nat × Nat)
  | _, [] => []
  | heads, lexeme :: rest =>
      if lexeme.first = '{' then pairLoops (lexeme.start :: heads) rest
      else if lexeme.first = '}' then
        match heads with
        | [] => pairLoops [] rest
        | head :: heads => (lexeme.start, head + 1) :: pairLoops heads rest
      else pairLoops heads rest

namespace LoopTable

/-- The loops of a text. -/
def ofText (text : List Char) : LoopTable :=
  let lexing := lexFrom 0 text
  { bodies := pairLoops [] lexing.lexemes, stopped := lexing.stopped }

/-- How many loops there are. -/
def size (loops : LoopTable) : Nat :=
  loops.bodies.length

/-- Whether there is no loop. -/
def isEmpty (loops : LoopTable) : Bool :=
  loops.bodies.isEmpty

/-- The start of the body that ends at position `tail`. A loop end behind a unit that could not be
read is not in the table; there the fault is that unit's. -/
def bodyStart (loops : LoopTable) (tail : Nat) : Except Fault Nat :=
  match loops.stopped, loops.bodies.lookup tail with
  | some (position, fault), found =>
      if position < tail then .error (.misread position (.literal fault))
      else found.elim (.error (.misread tail .noLoopHead)) .ok
  | none, some start => .ok start
  | none, none => .error (.misread tail .noLoopHead)

end LoopTable

/-- The position after the loop end that closes the last of `depth` loops open before the units. -/
def loopExit : (depth : Nat) → List Lexeme → Option Nat
  | _, [] => none
  | depth, lexeme :: rest =>
      if lexeme.first = '{' then loopExit (depth + 1) rest
      else if lexeme.first = '}' then
        if depth ≤ 1 then some lexeme.stop else loopExit (depth - 1) rest
      else loopExit depth rest

/-- The position after the end of the `depth`-th loop around position `start`. -/
def exitFrom (text : List Char) (start depth : Nat) : Except Fault Nat :=
  if depth = 0 then .ok start
  else
    let lexing := lexFrom start (text.drop start)
    match loopExit depth lexing.lexemes, lexing.stopped with
    | some position, _ => .ok position
    | none, some (position, fault) => .error (.misread position (.literal fault))
    | none, none => .error (.misread (start - 1) .noLoopEnd)

end GlyphStack.Program
