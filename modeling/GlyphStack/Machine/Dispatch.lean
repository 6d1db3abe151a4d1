import GlyphStack.Program.Basic
import GlyphStack.Program.Instruction
import GlyphStack.Text.LetterCase
import GlyphStack.Value.Compare
import GlyphStack.Machine.Item

/-!
What each unit of program text does to a store, and where the text is read on after it.
-/

namespace GlyphStack

open Store

/-- A literal of a unit at position `start`, or the fault that it cannot be read. -/
def literal {α : Type} (start : Nat) : Except Malformation α → Action α
  | .ok a => pure a
  | .error fault => throw (.misread start (.literal fault))

/-- Takes two values off, deepest first. -/
def popTwo (operation : String) : Action (Value × Value) := do
  let operands ← pop operation #v[.any, .any]
  return (operands[0], operands[1])

/-- Takes one value off. -/
def popOne (operation : String) : Action Value := do
  let operands ← pop operation #v[.any]
  return operands[0]

/-- Takes an array off. -/
def popArray (operation : String) : Action Ref := do
  let operands ← pop operation #v[.kind .array]
  liftExcept (operands[0].expectArray operation)

/-- Takes an array and an index off. -/
def popArrayIndex (operation : String) : Action (Ref × Value) := do
  let operands ← pop operation #v[.kind .array, .any]
  return (← liftExcept (operands[0].expectArray operation), operands[1])

/-- Takes an array, an index and a value off. -/
def popArrayIndexValue (operation : String) : Action (Ref × Value × Value) := do
  let operands ← pop operation #v[.kind .array, .any, .any]
  return (← liftExcept (operands[0].expectArray operation), operands[1], operands[2])

/-- The number of a value. -/
def numberOf (v : Value) : Action Float :=
  return (← get).heap.toNumber v

/-- The number of an index into a storage that is being changed. The storage cannot be read meanwhile,
so there is none if the index is the array itself. -/
def indexInto (ref : Ref) : Value → Action Float
  | .array other => if other = ref then throw .crash else numberOf (.array other)
  | v => numberOf v

theorem indexInto_self (ref : Ref) : indexInto ref (.array ref) = throw .crash :=
  if_pos rfl

theorem indexInto_of_ne {ref : Ref} {index : Value} (h : index ≠ .array ref) :
    indexInto ref index = numberOf index := by
  cases index with
  | array other => exact if_neg fun hself => h (congrArg Value.array hself)
  | _ => rfl

/-- The text of a value. -/
def textOf (limits : Limits) (v : Value) : Action String :=
  return (← get).heap.render limits.nesting v

/-- Changes the contents of a storage. -/
def modifyStorage (ref : Ref) (change : Array Value → Array Value) : Action Unit := fun store =>
  match store with
  | { heap, frames, bindings, output } =>
      .ok () { heap := heap.update ref change, frames, bindings, output }

/-- The sum of two values, which may be a new array. -/
def sumOf (limits : Limits) (a b : Value) : Action Value := fun store =>
  match store with
  | { heap, frames, bindings, output } =>
      let (sum, heap) := heap.add limits.nesting a b
      .ok sum { heap, frames, bindings, output }

/-- Carries out an instruction whose unit is the single character `first` and which does not move
about in the text. The other instructions do nothing here. -/
def perform (limits : Limits) (first : Char) : Instruction → Action Unit
  | .add => do
      let (a, b) ← popTwo "+"
      push limits (← sumOf limits a b)
  | .arithmetic operator => do
      let (a, b) ← popTwo (String.singleton operator.symbol)
      push limits (.number ((← get).heap.arithmetic operator a b))
  | .compare => do
      let (a, b) ← popTwo "?"
      let ordering ← liftExcept ((← get).heap.compare limits.nesting a b)
      push limits (.number (orderingNumber ordering))
  | .not => do
      let v ← popOne "~"
      push limits (.number (if v.isTrue then Number.zero else Number.ofRatio false 1 1))
  | .zero => push limits (.number Number.zero)
  | .openFrame => openFrame limits
  | .openArray => do openArray limits (← popArray "|")
  | .closeFrame => closeFrame limits
  | .print => do emit (← textOf limits (← top))
  | .dup => dup limits
  | .discard => discard
  | .store => do
      let name ← popOne "="
      setVariable (← textOf limits name) (← top)
  | .load => do
      let name ← popOne "^"
      push limits (← getVariable (← textOf limits name))
  | .gather => do
      let count ← numberOf (← popOne ">")
      push limits (← gather ">" (Number.truncate count).toCount)
  | .spread => do
      let ref ← popArray "<"
      pushAll limits ((← get).heap.read ref)
  | .itemGet => do
      let (ref, index) ← popArrayIndex ","
      let index := Number.truncate (← numberOf index)
      let items := (← get).heap.read ref
      let item := ((itemIndex? items.size index).bind (items[·]?)).getD .absent
      push limits (.array ref)
      push limits item
  | .itemSet => do
      let (ref, index, v) ← popArrayIndexValue ";"
      let index := Number.truncate (← indexInto ref index)
      modifyStorage ref (assignItem · index v)
      push limits (.array ref)
  | .itemDelete => do
      let (ref, index) ← popArrayIndex "$"
      let index := Number.truncate (← indexInto ref index)
      modifyStorage ref (removeItem · index)
      push limits (.array ref)
  | .call | .map => throw (.unsupported first)
  | _ => pure ()

/-- Carries out the unit that starts at position `start` with `first`, where `tail` follows in the
text. It answers the position at which the text is read on. -/
def dispatch (program : Program) (limits : Limits) (start : Nat) (first : Char)
    (tail : List Char) : Action Nat :=
  let rest := first :: tail
  match Instruction.ofChar first with
  | .digits => do
      let n := Program.digitRun rest
      let digits := Number.Numeral.spelled (rest.take n)
      push limits (.number (Number.Numeral.toFloat { negative := false, digits, exponent := 0 }))
      return start + n
  | .word => do
      let n := Program.nameRun rest
      push limits (.string (Text.lowercase (String.ofList (rest.take n))))
      return start + n
  | .character => do
      let c ← literal start (Program.character rest)
      push limits (.string (String.singleton c))
      return start + 2
  | .text => do
      let (text, n) ← literal start (Program.delimited rest)
      push limits (.string text)
      return start + n
  | .emit => do
      let (text, n) ← literal start (Program.delimited rest)
      emit text
      return start + n
  | .paren => do
      let n ← literal start (Program.parenClose rest)
      push limits (.string (String.ofList (tail.take (n - 1))))
      return start + n + 1
  | .strayParen => throw (.misread start .strayParen)
  | .loopHead => do
      let condition ← popOne "\x7b"
      if condition.isTrue then return start + 1
      else liftExcept (Program.exitFrom program.text (start + 1) 1)
  | .loopTail => do
      let condition ← popOne "\x7d"
      if condition.isTrue then liftExcept (program.loops.bodyStart start)
      else return start + 1
  | .leave => do
      let depth := Program.leaveRun rest
      liftExcept (Program.exitFrom program.text (start + depth) depth)
  | instruction => do
      perform limits first instruction
      return start + 1

end GlyphStack
