import GlyphStack.Proofs.Machine.Effect
import GlyphStack.Proofs.Store.OperandCheck

/-!
What is left of a store when an operation on the open stacks fails. All but one of the operations
look at the store before they change it, so a fault leaves everything as it was; each has one cause,
or two, that it fails for, and `Refuses` lists them. Closing a stack is the exception: the stack is
off the open ones before it is clear that there is room for it on the one that becomes current, and
it stays off (`LosesCurrent`).

Nothing is asked of the store: the limits may be lower than what it holds already, and the same
storage may be open more than once.
-/

namespace GlyphStack.Store

/-! ## 1. Operations that look first -/

/-- What can be done with the open stacks, apart from closing one. -/
inductive StackOperation where
  | push (v : Value)
  | pushAll (vs : Array Value)
  | dup
  | pop {n : Nat} (operation : String) (types : Vector Expected n)
  | gather (operation : String) (count : Nat)
  | openFrame
  | openArray (ref : Ref)

/-- Carries out an operation. What it answers is left out. -/
def StackOperation.run (limits : Limits) : StackOperation → Action Unit
  | .push v => Store.push limits v
  | .pushAll vs => Store.pushAll limits vs
  | .dup => Store.dup limits
  | .pop operation types => do let _ ← Store.pop operation types
  | .gather operation count => do let _ ← Store.gather operation count
  | .openFrame => Store.openFrame limits
  | .openArray ref => Store.openArray limits ref

/-- The fault that an operation fails with on a store, and its cause. -/
inductive Refuses (limits : Limits) (store : Store) : StackOperation → Fault → Prop where
  | push {v : Value} (hfull : limits.stackSize ≤ store.stack.size) :
      Refuses limits store (.push v) (.stackOverflow limits.stackSize)
  | pushAll {vs : Array Value} (hfull : limits.stackSize < store.stack.size + vs.size) :
      Refuses limits store (.pushAll vs) (.stackOverflow limits.stackSize)
  | dup (hsome : store.stack.size ≠ 0) (hfull : limits.stackSize ≤ store.stack.size) :
      Refuses limits store .dup (.stackOverflow limits.stackSize)
  | popFew {n : Nat} {operation : String} {types : Vector Expected n}
      (hfew : store.stack.size < n) :
      Refuses limits store (.pop operation types) (.arity operation n store.stack.size)
  | popMisfit {n : Nat} {operation : String} {types : Vector Expected n} {i : Fin n} {v : Value}
      (hmisfit : FirstMisfit types store.stack i v) :
      Refuses limits store (.pop operation types)
        (.type operation i (types.get i) v.kind (store.heap.render Heap.defaultNesting v))
  | gather {operation : String} {count : Nat} (hfew : store.stack.size < count) :
      Refuses limits store (.gather operation count) (.arity operation count store.stack.size)
  | openFrame (hdeep : limits.frameDepth ≤ store.frames.depth) :
      Refuses limits store .openFrame (.frameOverflow limits.frameDepth)
  | openArray {ref : Ref} (hdeep : limits.frameDepth ≤ store.frames.depth) :
      Refuses limits store (.openArray ref) (.frameOverflow limits.frameDepth)

section

variable {limits : Limits} {store after : Store} {fault : Fault}

/-- Values that do not all fit are left out, all of them. -/
theorem pushAll_of_lt {vs : Array Value} (h : limits.stackSize < store.stack.size + vs.size) :
    Store.pushAll limits vs store = .error (.stackOverflow limits.stackSize) store := by
  show (if store.stack.size + vs.size ≤ limits.stackSize then modifyStack (· ++ vs)
    else throw (.stackOverflow limits.stackSize) : Action Unit) store = _
  rw [if_neg (Nat.not_le.mpr h)]
  rfl

theorem pushAll_of_le {vs : Array Value} (h : store.stack.size + vs.size ≤ limits.stackSize) :
    Store.pushAll limits vs store = .ok () (store.mapStack (· ++ vs)) := by
  show (if store.stack.size + vs.size ≤ limits.stackSize then modifyStack (· ++ vs)
    else throw (.stackOverflow limits.stackSize) : Action Unit) store = _
  rw [if_pos h]
  rfl

/-- The top value is pushed again, and an empty stack is left alone. -/
theorem dup_eq (limits : Limits) (store : Store) :
    Store.dup limits store = store.stack.back?.elim (.ok () store) (Store.push limits · store) := by
  have htop : Store.top? store = .ok store.stack.back? store := rfl
  rw [Store.dup, Action.bind_of_ok htop]
  cases store.stack.back? <;> rfl

theorem openArray_eq (limits : Limits) (ref : Ref) (store : Store) :
    Store.openArray limits ref store =
      if store.frames.depth < limits.frameDepth then
        .ok () { store with frames := store.frames.openOne ref }
      else .error (.frameOverflow limits.frameDepth) store := rfl

/-- An operation that has a cause to fail fails with that fault, and changes nothing. -/
theorem run_of_refuses {op : StackOperation} (h : Refuses limits store op fault) :
    op.run limits store = .error fault store := by
  cases h with
  | push hfull => exact push_of_le _ hfull
  | pushAll hfull => exact pushAll_of_lt hfull
  | dup hsome hfull =>
    rw [StackOperation.run, dup_eq, Array.back?_eq_getElem?, Array.getElem?_eq_getElem (by omega)]
    exact push_of_le _ hfull
  | popFew hfew => exact Action.bind_of_error (pop_of_lt _ _ hfew)
  | popMisfit hmisfit => exact Action.bind_of_error (pop_of_firstMisfit _ hmisfit)
  | gather hfew => exact Action.bind_of_error (gather_of_lt hfew)
  | openFrame hdeep =>
    rw [StackOperation.run, openFrame_eq, if_neg (Nat.not_lt.mpr hdeep)]
  | openArray hdeep =>
    rw [StackOperation.run, openArray_eq, if_neg (Nat.not_lt.mpr hdeep)]

/-- An operation that has no cause to fail succeeds. -/
theorem run_of_not_refuses {op : StackOperation} (h : ∀ fault, ¬ Refuses limits store op fault) :
    ∃ after, op.run limits store = .ok () after := by
  cases op with
  | push v =>
    have hroom : store.stack.size < limits.stackSize := Nat.lt_of_not_le fun hfull => h _ (.push hfull)
    exact ⟨_, push_of_lt v hroom⟩
  | pushAll vs =>
    have hroom : store.stack.size + vs.size ≤ limits.stackSize :=
      Nat.le_of_not_lt fun hfull => h _ (.pushAll hfull)
    exact ⟨_, pushAll_of_le hroom⟩
  | dup =>
    rw [StackOperation.run, dup_eq]
    cases hback : store.stack.back? with
    | none => exact ⟨_, rfl⟩
    | some v =>
      have hsome : store.stack.size ≠ 0 := by
        intro hzero
        rw [Array.eq_empty_of_size_eq_zero hzero] at hback
        contradiction
      have hroom : store.stack.size < limits.stackSize :=
        Nat.lt_of_not_le fun hfull => h _ (.dup hsome hfull)
      exact ⟨_, push_of_lt v hroom⟩
  | @pop n operation types =>
    have henough : n ≤ store.stack.size := Nat.le_of_not_lt fun hfew => h _ (.popFew hfew)
    rcases operandsOf_cases store.heap operation types henough with
      ⟨operands, hoperands, -⟩ | ⟨i, v, hmisfit, -⟩
    · exact ⟨_, Action.bind_of_ok (pop_of_ok hoperands)⟩
    · exact absurd (.popMisfit hmisfit) (h _)
  | gather operation count =>
    have henough : count ≤ store.stack.size := Nat.le_of_not_lt fun hfew => h _ (.gather hfew)
    exact ⟨_, Action.bind_of_ok (gather_of_le henough)⟩
  | openFrame =>
    have hroom : store.frames.depth < limits.frameDepth :=
      Nat.lt_of_not_le fun hdeep => h _ (.openFrame hdeep)
    exact ⟨_, by rw [StackOperation.run, openFrame_eq, if_pos hroom]⟩
  | openArray ref =>
    have hroom : store.frames.depth < limits.frameDepth :=
      Nat.lt_of_not_le fun hdeep => h _ (.openArray hdeep)
    exact ⟨_, by rw [StackOperation.run, openArray_eq, if_pos hroom]⟩

/-- An operation fails exactly where it has a cause to, and leaves everything as it was. -/
theorem run_eq_error_iff {op : StackOperation} :
    op.run limits store = .error fault after ↔ Refuses limits store op fault ∧ after = store := by
  constructor
  · intro hrun
    by_cases hcause : ∃ cause, Refuses limits store op cause
    · obtain ⟨cause, hcause⟩ := hcause
      rw [run_of_refuses hcause] at hrun
      cases hrun
      exact ⟨hcause, rfl⟩
    · obtain ⟨done, hdone⟩ := run_of_not_refuses (not_exists.mp hcause)
      rw [hdone] at hrun
      contradiction
  · rintro ⟨hcause, rfl⟩
    exact run_of_refuses hcause

end

/-! ## 2. Closing a stack -/

section

variable {limits : Limits} {store after : Store} {fault : Fault}

/-- What the stack holds that a closed one goes to: the one below it, or a new one if there is
none. -/
def receiving (store : Store) : Array Value :=
  store.frames.below.back?.elim #[] store.heap.read

/-- The current stack is closed and nothing has come of it. Every storage reads as before; the open
stacks are those below it, or, if it was the only one, a new empty one; the variables and what was
sent out are the same. -/
structure LosesCurrent (store after : Store) : Prop where
  read_eq : ∀ ref, after.heap.read ref = store.heap.read ref
  inner : store.frames.depth ≠ 1 →
    after.frames.toList = store.frames.toList.dropLast ∧ after.heap.size = store.heap.size
  only : store.frames.depth = 1 → after.frames.toList = [⟨store.heap.size⟩] ∧
    after.stack = #[] ∧ after.heap.size = store.heap.size + 1
  bindings_eq : after.bindings = store.bindings
  output_eq : after.output = store.output

/-- What becomes current is the stack that a closed one goes to. -/
theorem Drops.stack_eq (h : store.Drops after) : after.stack = store.receiving := by
  have hread := h.read_eq after.frames.current
  cases h with
  | @inner outer hclose =>
    obtain ⟨ref, hback, rfl⟩ := Option.map_eq_some_iff.mp hclose
    rw [receiving, hback]
    rfl
  | only hclose =>
    rw [receiving, Option.map_eq_none_iff.mp hclose]
    exact hread.trans (Heap.read_of_le (Nat.le_refl _))

/-- A stack that is closed is gone, and nothing besides. -/
theorem Drops.losesCurrent (h : store.Drops after) : LosesCurrent store after where
  read_eq := h.read_eq
  inner := by
    intro hdepth
    cases h with
    | inner hclose => exact ⟨by rw [Frames.toList_of_closeOne? hclose, List.dropLast_concat], rfl⟩
    | only hclose => exact absurd (Frames.closeOne?_eq_none_iff.mp hclose) hdepth
  only := by
    intro hdepth
    have hempty := h.stack_eq
    cases h with
    | inner hclose =>
      rw [Frames.closeOne?_eq_none_iff.mpr hdepth] at hclose
      contradiction
    | only hclose =>
      rw [receiving, Option.map_eq_none_iff.mp hclose] at hempty
      exact ⟨rfl, hempty, Heap.size_alloc _ _⟩
  bindings_eq := h.bindings_eq
  output_eq := by cases h <;> rfl

/-- Closing a stack fails exactly where it finds no room, and then the stack is gone. -/
theorem closeFrame_cases (limits : Limits) (store : Store) :
    (limits.stackSize ≤ store.receiving.size ∧
      ∃ after, LosesCurrent store after ∧
        closeFrame limits store = .error (.stackOverflow limits.stackSize) after) ∨
    (store.receiving.size < limits.stackSize ∧ ∃ after, closeFrame limits store = .ok () after) := by
  obtain ⟨dropped, hdrop, hclose⟩ := closeFrame_eq limits store
  rcases Nat.lt_or_ge dropped.stack.size limits.stackSize with hroom | hfull
  · right
    exact ⟨hdrop.stack_eq ▸ hroom, _, hclose.trans (push_of_lt _ hroom)⟩
  · left
    exact ⟨hdrop.stack_eq ▸ hfull, dropped, hdrop.losesCurrent, hclose.trans (push_of_le _ hfull)⟩

end

/-! ## 3. What a fault leaves -/

/-- **What is left when an operation on the open stacks fails.** Whatever was done before, and under
whatever limits, an operation other than closing a stack fails exactly if it has a cause to, and then
everything is as it was. Closing a stack fails exactly if the one that becomes current holds as many
values as are allowed already; the fault is that there are too many, and the stack that was closed
is gone, without anything else having changed. -/
theorem unchanged_or_loses_current (limits : Limits) (store : Store) :
    (∀ (op : StackOperation) (fault : Fault) (after : Store),
      op.run limits store = .error fault after ↔
        Refuses limits store op fault ∧ after = store) ∧
    ((∃ fault after, closeFrame limits store = .error fault after) ↔
      limits.stackSize ≤ store.receiving.size) ∧
    ∀ fault after, closeFrame limits store = .error fault after →
      fault = .stackOverflow limits.stackSize ∧ LosesCurrent store after := by
  refine ⟨fun op fault after => run_eq_error_iff, ?_⟩
  rcases closeFrame_cases limits store with ⟨hfull, after, hloses, hclose⟩ | ⟨hroom, after, hclose⟩
  · rw [hclose]
    refine ⟨iff_of_true ⟨_, _, rfl⟩ hfull, fun fault other hother => ?_⟩
    cases hother
    exact ⟨rfl, hloses⟩
  · rw [hclose]
    exact ⟨iff_of_false (by simp) (Nat.not_le.mpr hroom), by simp⟩

end GlyphStack.Store
