import GlyphStack.Value.Basic

/-!
What can go wrong while a program is read and run, the wording of each fault, and the places in
program texts that a failure names.
-/

namespace GlyphStack

/-- What is wrong with a literal that cannot be read to its end. -/
inductive Malformation where
  /-- A quote mark with no character after it. -/
  | noCharacter
  /-- A text whose closing delimiter is missing. -/
  | openText
  /-- A parenthesis that no later one balances. -/
  | openParen
deriving DecidableEq, Repr

/-- What is wrong at some position of a program text. -/
inductive Misreading where
  | literal (fault : Malformation)
  /-- A closing parenthesis outside every literal. -/
  | strayParen
  /-- A loop end was looked for and the text ended first. -/
  | noLoopEnd
  /-- A loop end that no loop head belongs to. -/
  | noLoopHead
  /-- A complaint of the host that embeds the machine. -/
  | other (text : String)
deriving DecidableEq, Repr

/-- The cause of a failure. -/
inductive Fault where
  /-- Fewer values on the stack than the operation takes. -/
  | arity (operation : String) (required available : Nat)
  /-- An operand of the wrong kind; the deepest operand has index 0. -/
  | type (operation : String) (index : Nat) (expected : Expected) (actual : Kind)
      (rendered : String)
  /-- The program text cannot be read at some position. -/
  | misread (position : Nat) (reason : Misreading)
  /-- A stack would hold more values than allowed. -/
  | stackOverflow (limit : Nat)
  /-- More frames would be open than allowed. -/
  | frameOverflow (limit : Nat)
  /-- Arrays lie in each other deeper than allowed. -/
  | nesting (limit : Nat)
  /-- A budgeted run is not done when its budget is. -/
  | stepLimit (limit : Nat)
  /-- An instruction that the language reserves. -/
  | unsupported (instruction : Char)
  /-- A state that no program should reach. -/
  | internal (text : String)
  /-- A storage is to be read while it is being changed. No result comes back from that: the host that
  embeds the machine goes down with it. -/
  | crash
deriving DecidableEq, Repr

/-- The wording of a malformed literal. -/
def Malformation.message : Malformation → String
  | .noCharacter => "character literal at end of input"
  | .openText => "unterminated string literal"
  | .openParen => "unterminated ( literal"

/-- The wording of a misreading. -/
def Misreading.message : Misreading → String
  | .literal fault => fault.message
  | .strayParen => "unmatched )"
  | .noLoopEnd => "no matching \x7d before end of input"
  | .noLoopHead => "no matching \x7b for \x7d"
  | .other text => text

/-- The wording of a fault. -/
def Fault.message : Fault → String
  | .arity operation required available =>
      s!"{operation} takes {required} arguments, only {available} values present in stack"
  | .type operation index expected actual rendered =>
      s!"{operation} expected argument {index} to be of type " ++ expected.name
        ++ ", got " ++ actual.name ++ " " ++ rendered
  | .misread position reason => s!"syntax error at position {position}: " ++ reason.message
  | .stackOverflow limit => s!"stack overflow: more than {limit} values on one stack"
  | .frameOverflow limit => s!"frame overflow: more than {limit} nested frames"
  | .nesting limit => s!"structure nested deeper than {limit} levels (cyclic array?)"
  | .stepLimit limit => s!"step limit of {limit} exceeded"
  | .unsupported instruction =>
      "instruction `" ++ String.singleton instruction ++ "` is not supported"
  | .internal text => "internal error: " ++ text
  | .crash => "storage read while it is being changed"

/-- A place in a program text: its name, line and column, the text of the line, and where in that
text a caret belongs, counted from 1. -/
structure TraceFrame where
  name : String
  line : Nat
  column : Nat
  source : String
  caret : Nat
deriving DecidableEq, Repr

/-- The wording of a place; a line with text is quoted, with a caret under the character meant. -/
def TraceFrame.message (frame : TraceFrame) : String :=
  let place := "at " ++ frame.name ++ " (" ++ toString frame.line ++ ":" ++
    toString frame.column ++ ")"
  if frame.source.isEmpty then place
  else
    let caret := String.ofList (List.replicate (frame.caret - 1) ' ' ++ ['^'])
    place ++ "\n    " ++ frame.source ++ "\n    " ++ caret

/-- A fault with the places it came through, innermost first. -/
structure Failure where
  fault : Fault
  trace : List TraceFrame := []
deriving DecidableEq, Repr

/-- The failure seen from one place further out. -/
def Failure.through (failure : Failure) (frame : TraceFrame) : Failure :=
  { failure with trace := failure.trace ++ [frame] }

/-- The wording of a failure: its fault, then each place on a new line. -/
def Failure.message (failure : Failure) : String :=
  failure.trace.foldl (fun text frame => text ++ "\n  " ++ frame.message) failure.fault.message

end GlyphStack
