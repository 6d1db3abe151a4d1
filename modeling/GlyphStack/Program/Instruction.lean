import GlyphStack.Value.Arithmetic

/-!
The instructions. The first character of a unit of program text decides which one it is.
-/

namespace GlyphStack

/-- What a unit of program text does. -/
inductive Instruction where
  /-- Does nothing. -/
  | nop
  /-- Pushes the number zero. -/
  | zero
  /-- Pushes the number that a run of digits spells. -/
  | digits
  /-- Pushes a name as a text in lower case. -/
  | word
  /-- Pushes the next character as a text. -/
  | character
  /-- Pushes a delimited text. -/
  | text
  /-- Sends a delimited text out. -/
  | emit
  /-- Pushes the text between balanced parentheses. -/
  | paren
  /-- A parenthesis that closes nothing. -/
  | strayParen
  /-- Adds the two top values. -/
  | add
  /-- Applies an operator to the numbers of the two top values. -/
  | arithmetic (operator : Operator)
  /-- Compares the two top values. -/
  | compare
  /-- Negates the truth of the top value. -/
  | not
  /-- Opens a new empty stack. -/
  | openFrame
  /-- Opens the top array as the stack. -/
  | openArray
  /-- Closes the stack and pushes it as an array onto the one below. -/
  | closeFrame
  /-- Sends the text of the top value out. -/
  | print
  /-- Pushes the top value again. -/
  | dup
  /-- Drops the top value. -/
  | discard
  /-- Stores a value under a name. -/
  | store
  /-- Pushes the value stored under a name. -/
  | load
  /-- Makes an array of the top values. -/
  | gather
  /-- Pushes the items of an array. -/
  | spread
  /-- Pushes an item of an array. -/
  | itemGet
  /-- Replaces an item of an array. -/
  | itemSet
  /-- Removes an item from an array. -/
  | itemDelete
  /-- Enters a loop body, or passes over it. -/
  | loopHead
  /-- Repeats a loop body, or leaves it. -/
  | loopTail
  /-- Leaves as many loops as the run is long. -/
  | leave
  /-- Reserved. -/
  | call
  /-- Reserved. -/
  | map
deriving DecidableEq, Repr

/-- The instruction of a unit that starts with `c`. -/
def Instruction.ofChar (c : Char) : Instruction :=
  if c.isDigit then (if c = '0' then .zero else .digits)
  else if c.isAlpha then .word
  else
    match c with
    | '\'' => .character
    | '"' => .text
    | '\x60' => .emit
    | '(' => .paren
    | ')' => .strayParen
    | '+' => .add
    | '-' => .arithmetic .difference
    | '*' => .arithmetic .product
    | '/' => .arithmetic .quotient
    | '%' => .arithmetic .remainder
    | '?' => .compare
    | '~' => .not
    | '[' => .openFrame
    | '|' => .openArray
    | ']' => .closeFrame
    | '.' => .print
    | ':' => .dup
    | '_' => .discard
    | '=' => .store
    | '^' => .load
    | '>' => .gather
    | '<' => .spread
    | ',' => .itemGet
    | ';' => .itemSet
    | '$' => .itemDelete
    | '{' => .loopHead
    | '}' => .loopTail
    | '!' => .leave
    | '@' => .call
    | '#' => .map
    | _ => .nop

end GlyphStack
