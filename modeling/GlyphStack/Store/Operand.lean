import GlyphStack.Fault
import GlyphStack.Value.Render

/-!
Operands: the top values of a stack, checked against what an operation expects before anything is
taken off.
-/

namespace GlyphStack

/-- The first operand that does not meet its expectation, counted from `index`. -/
def firstMismatch (index : Nat) : List Expected → List Value → Option (Nat × Expected × Value)
  | expected :: types, v :: operands =>
      if expected.accepts v then firstMismatch (index + 1) types operands
      else some (index, expected, v)
  | _, _ => none

/-- The top values of a stack that an operation takes, deepest first, with the fault that there are
too few or that one is of the wrong kind. -/
def operandsOf {n : Nat} (heap : Heap) (operation : String) (types : Vector Expected n)
    (stack : Array Value) : Except Fault (Vector Value n) :=
  if enough : n ≤ stack.size then
    let operands : Vector Value n :=
      ⟨stack.extract (stack.size - n), by simp only [Array.size_extract]; omega⟩
    match firstMismatch 0 types.toList operands.toList with
    | none => .ok operands
    | some (index, expected, v) =>
        .error (.type operation index expected v.kind (heap.render Heap.defaultNesting v))
  else .error (.arity operation n stack.size)

/-- The array that an operand must be; a value of another kind should have been refused before. -/
def Value.expectArray (operation : String) : Value → Except Fault Ref
  | .array ref => .ok ref
  | v => .error (.internal (operation ++ " received a checked " ++ v.kind.name ++ " operand"))

end GlyphStack
