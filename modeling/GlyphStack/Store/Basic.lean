import GlyphStack.Store.Dictionary
import GlyphStack.Store.Operand

/-!
What instructions read and change: the heap, the open stacks, the variables, and what was sent out.
An action on it answers a value or a fault, and either way leaves a store behind.

The open stacks are storages of the heap like all arrays, so a stack that was opened from an array
is that array. There is always a current stack, because the type has one.
-/

namespace GlyphStack

/-- The bounds that a run keeps. -/
structure Limits where
  /-- How many values one stack may hold. -/
  stackSize : Nat := 1048576
  /-- How many frames may be open. -/
  frameDepth : Nat := 4096
  /-- How deep arrays may lie in each other where a whole value is walked. -/
  nesting : Nat := 256
deriving DecidableEq, Repr

/-- The open stacks: the one that instructions work on, and those below it, outermost first. -/
structure Frames where
  below : Array Ref
  current : Ref
deriving DecidableEq, Repr

namespace Frames

/-- A single open stack. -/
def single (ref : Ref) : Frames := ⟨#[], ref⟩

/-- How many stacks are open. -/
def depth (frames : Frames) : Nat :=
  frames.below.size + 1

/-- The open stacks from the outermost to the current one. -/
def toList (frames : Frames) : List Ref :=
  frames.below.toList ++ [frames.current]

/-- Opens one more stack. -/
def openOne : Frames → Ref → Frames
  | ⟨below, current⟩, ref => ⟨below.push current, ref⟩

/-- The open stacks without the current one, unless that is the only one. -/
def closeOne? : Frames → Option Frames
  | ⟨below, _⟩ => below.back?.map fun ref => ⟨below.pop, ref⟩

@[simp] theorem depth_openOne (frames : Frames) (ref : Ref) :
    (frames.openOne ref).depth = frames.depth + 1 := by
  simp [depth, openOne]

@[simp] theorem toList_openOne (frames : Frames) (ref : Ref) :
    (frames.openOne ref).toList = frames.toList ++ [ref] := by
  simp [toList, openOne]

end Frames

/-- Everything that instructions read and change; `output` holds the texts sent out, oldest
first. -/
structure Store where
  heap : Heap
  frames : Frames
  bindings : Dictionary
  output : Array String

/-- An action on a store: it answers a value or a fault and leaves a store in both cases. -/
abbrev Action := EStateM Fault Store

namespace Store

/-- The contents of the current stack, the bottom first. -/
def stack (store : Store) : Array Value :=
  store.heap.read store.frames.current

/-- A store on a heap, with one new empty stack. -/
def onHeap (heap : Heap) : Store :=
  let (ref, heap) := heap.alloc #[]
  { heap, frames := .single ref, bindings := .empty, output := #[] }

theorem stack_onHeap (heap : Heap) : (onHeap heap).stack = #[] :=
  Heap.read_alloc_self heap #[]

theorem current_onHeap_lt (heap : Heap) :
    (onHeap heap).frames.current.index < (onHeap heap).heap.size := by
  simp [onHeap, Frames.single, Heap.alloc, Heap.size]

/-- Adds a storage for each list of values. -/
def allocAll (heap : Heap) : List (Array Value) → List Ref × Heap
  | [] => ([], heap)
  | items :: rest =>
      let (ref, heap) := heap.alloc items
      let (refs, heap) := allocAll heap rest
      (ref :: refs, heap)

/-- Opens a new stack for each list of values, outermost first, in place of the open ones; with no
list there is one empty stack. -/
def withFrames (store : Store) (contents : List (Array Value)) : Store :=
  match contents with
  | [] =>
      let (ref, heap) := store.heap.alloc #[]
      { store with heap, frames := .single ref }
  | outermost :: inner =>
      let (ref, heap) := store.heap.alloc outermost
      let (refs, heap) := allocAll heap inner
      { store with heap, frames := refs.foldl Frames.openOne (.single ref) }

/-! ## The current stack -/

/-- The store with changed contents of the current stack. -/
def mapStack (store : Store) (change : Array Value → Array Value) : Store :=
  match store with
  | { heap, frames, bindings, output } =>
      { heap := heap.update frames.current change, frames, bindings, output }

@[simp] theorem frames_mapStack (store : Store) (change : Array Value → Array Value) :
    (store.mapStack change).frames = store.frames := rfl

@[simp] theorem bindings_mapStack (store : Store) (change : Array Value → Array Value) :
    (store.mapStack change).bindings = store.bindings := rfl

@[simp] theorem output_mapStack (store : Store) (change : Array Value → Array Value) :
    (store.mapStack change).output = store.output := rfl

@[simp] theorem size_heap_mapStack (store : Store) (change : Array Value → Array Value) :
    (store.mapStack change).heap.size = store.heap.size :=
  Heap.size_update store.heap store.frames.current change

/-- Changing the current stack changes what it holds, if its storage exists. -/
theorem stack_mapStack {store : Store} (change : Array Value → Array Value)
    (h : store.frames.current.index < store.heap.size) :
    (store.mapStack change).stack = change store.stack :=
  Heap.read_update_self change h

/-- Changing the current stack leaves all other storages as they were. -/
theorem read_mapStack_of_ne {store : Store} (change : Array Value → Array Value) {ref : Ref}
    (h : ref ≠ store.frames.current) :
    (store.mapStack change).heap.read ref = store.heap.read ref :=
  Heap.read_update_of_ne change h

/-- Changes the contents of the current stack. -/
def modifyStack (change : Array Value → Array Value) : Action Unit := fun store =>
  .ok () (store.mapStack change)

/-- Pushes a value, if the stack holds fewer than the limit. -/
def push (limits : Limits) (v : Value) : Action Unit := do
  if (← get).stack.size < limits.stackSize then modifyStack (·.push v)
  else throw (.stackOverflow limits.stackSize)

/-- Below the limit a value goes on top. -/
theorem push_of_lt {limits : Limits} {store : Store} (v : Value)
    (h : store.stack.size < limits.stackSize) :
    push limits v store = .ok () (store.mapStack (·.push v)) := by
  show (if store.stack.size < limits.stackSize then modifyStack (·.push v)
    else throw (.stackOverflow limits.stackSize) : Action Unit) store = _
  rw [if_pos h]
  rfl

/-- At the limit the stack stays as it is. -/
theorem push_of_le {limits : Limits} {store : Store} (v : Value)
    (h : limits.stackSize ≤ store.stack.size) :
    push limits v store = .error (.stackOverflow limits.stackSize) store := by
  show (if store.stack.size < limits.stackSize then modifyStack (·.push v)
    else throw (.stackOverflow limits.stackSize) : Action Unit) store = _
  rw [if_neg (Nat.not_lt.2 h)]
  rfl

/-- Pushes several values in order, all or none. -/
def pushAll (limits : Limits) (vs : Array Value) : Action Unit := do
  if (← get).stack.size + vs.size ≤ limits.stackSize then modifyStack (· ++ vs)
  else throw (.stackOverflow limits.stackSize)

/-- The top value, if there is one. -/
def top? : Action (Option Value) :=
  return (← get).stack.back?

/-- The top value, absent on an empty stack. -/
def top : Action Value :=
  return (← top?).getD .absent

/-- Pushes the top value again, if there is one. -/
def dup (limits : Limits) : Action Unit := do
  match ← top? with
  | some v => push limits v
  | none => pure ()

/-- Drops the top value, if there is one. -/
def discard : Action Unit :=
  modifyStack (·.pop)

/-- Takes off checked operands, deepest first; if they fail the check the stack stays whole. -/
def pop {n : Nat} (operation : String) (types : Vector Expected n) : Action (Vector Value n) := do
  let store ← get
  let operands ← liftExcept (operandsOf store.heap operation types store.stack)
  modifyStack fun stack => stack.shrink (stack.size - n)
  return operands

/-- Operands that pass the check come off the stack. -/
theorem pop_of_ok {n : Nat} {operation : String} {types : Vector Expected n} {store : Store}
    {operands : Vector Value n}
    (h : operandsOf store.heap operation types store.stack = .ok operands) :
    pop operation types store =
      .ok operands (store.mapStack fun stack => stack.shrink (stack.size - n)) := by
  show EStateM.bind (liftExcept (operandsOf store.heap operation types store.stack)) _ store = _
  rw [h]
  rfl

/-- Operands that fail the check leave everything as it was. -/
theorem pop_of_error {n : Nat} {operation : String} {types : Vector Expected n} {store : Store}
    {fault : Fault} (h : operandsOf store.heap operation types store.stack = .error fault) :
    pop operation types store = .error fault store := by
  show EStateM.bind (liftExcept (operandsOf store.heap operation types store.stack)) _ store = _
  rw [h]
  rfl

/-- Adds a storage to the heap. -/
def alloc (items : Array Value) : Action Ref := fun store =>
  match store with
  | { heap, frames, bindings, output } =>
      let (ref, heap) := heap.alloc items
      .ok ref { heap, frames, bindings, output }

/-- Takes the top `count` values off as a new array. -/
def gather (operation : String) (count : Nat) : Action Value := do
  let stack := (← get).stack
  if stack.size < count then throw (.arity operation count stack.size)
  let ref ← alloc (stack.extract (stack.size - count))
  modifyStack fun stack => stack.shrink (stack.size - count)
  return .array ref

/-! ## The open stacks -/

/-- Opens an array as the current stack. -/
def openArray (limits : Limits) (ref : Ref) : Action Unit := fun store =>
  match store with
  | { heap, frames, bindings, output } =>
      if frames.depth < limits.frameDepth then
        .ok () { heap, frames := frames.openOne ref, bindings, output }
      else .error (.frameOverflow limits.frameDepth) { heap, frames, bindings, output }

/-- Opens a new empty stack. -/
def openFrame (limits : Limits) : Action Unit := do
  if (← get).frames.depth < limits.frameDepth then openArray limits (← alloc #[])
  else throw (.frameOverflow limits.frameDepth)

/-- Takes the current stack off the open ones; when it is the only one, a new empty one takes its
place. It answers the stack that was closed. -/
def dropFrame : Action Ref := fun store =>
  match store with
  | { heap, frames, bindings, output } =>
      let closed := frames.current
      match frames.closeOne? with
      | some frames => .ok closed { heap, frames, bindings, output }
      | none =>
          let (ref, heap) := heap.alloc #[]
          .ok closed { heap, frames := .single ref, bindings, output }

/-- Closes the current stack and pushes it as an array onto the one that becomes current. -/
def closeFrame (limits : Limits) : Action Unit := do
  push limits (.array (← dropFrame))

/-! ## Variables and output -/

/-- Gives a variable a value. -/
def setVariable (name : String) (v : Value) : Action Unit :=
  modify fun store => { store with bindings := store.bindings.put name v }

/-- The value of a variable, absent if it has none. -/
def getVariable (name : String) : Action Value :=
  return ((← get).bindings.get? name).getD .absent

/-- Sends a text out. -/
def emit (text : String) : Action Unit :=
  modify fun store => { store with output := store.output.push text }

end Store

end GlyphStack
