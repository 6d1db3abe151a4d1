import GlyphStack.Proofs.Machine.Dispatch
import GlyphStack.Proofs.Store.OperandCheck

/-!
Operands by the stack they stand on. Where the top of the stack is written out and is of the kinds
that an instruction asks for, its operands come off and leave what stands below them; one lemma for
each number and kind of operands that instructions take, all from `Store.pop_of_stack_eq`.
-/

namespace GlyphStack

open Store

namespace Store

variable {store : Store} {below : Array Value}

/-- What is on the current stack, it has a storage for. -/
theorem current_lt_of_stack_eq_push {v : Value} (h : store.stack = below.push v) :
    store.frames.current.index < store.heap.size := by
  rw [Array.push_eq_append] at h
  exact current_lt_of_stack_eq h (by simp)

/-! ## 1. Any operands -/

section Operands

variable {n : Nat} {operands : Vector Value n}

theorem stack_taking (h : store.stack = below ++ operands.toArray) :
    (store.taking n).stack = below := by
  rcases Nat.lt_or_ge store.frames.current.index store.heap.size with hlt | hge
  · rw [taking, stack_mapStack _ hlt, h]
    simp
  · -- a stack without a storage is empty
    have hempty : store.stack = #[] := Heap.read_of_le hge
    rw [hempty] at h
    rw [(Array.append_eq_empty_iff.mp h.symm).1]
    exact Heap.read_of_le (Nat.le_trans (Nat.le_of_eq (size_heap_mapStack store _)) hge)

/-- Operands of the right kinds come off the stack. -/
theorem pop_of_stack_eq (operation : String) {types : Vector Expected n}
    (h : store.stack = below ++ operands.toArray)
    (haccepts : ∀ i, (types.get i).accepts (operands.get i) = true) :
    pop operation types store = .ok operands (store.taking n) := by
  have hsize : store.stack.size = below.size + n := by simp [h]
  have haccepted (i : Fin n) : AcceptedAt types store.stack i := by
    refine ⟨operands.get i, ?_, haccepts i⟩
    rw [hsize, Nat.add_sub_cancel, h, Array.getElem?_append_right (Nat.le_add_right _ _),
      Nat.add_sub_cancel_left, Vector.getElem?_toArray, Vector.getElem?_eq_getElem i.isLt]
    rfl
  obtain ⟨taken, hpop, hstack⟩ := pop_of_accepted operation (by omega) haccepted
  rw [stack_taking h, h] at hstack
  rw [hpop, Vector.toArray_inj.mp (Array.append_right_inj _ |>.mp hstack)]

end Operands

/-! ## 2. Operands of instructions -/

variable {v w : Value} {ref : Ref}

theorem stack_taking_one (h : store.stack = below.push v) : (store.taking 1).stack = below :=
  @stack_taking store below 1 #v[v] (h.trans Array.push_eq_append)

theorem popOne_of_stack_eq (operation : String) (h : store.stack = below.push v) :
    popOne operation store = .ok v (store.taking 1) := by
  have hpop : pop operation #v[.any] store = .ok #v[v] (store.taking 1) :=
    pop_of_stack_eq operation (h.trans Array.push_eq_append) fun | 0 => rfl
  exact Action.bind_of_ok hpop

theorem popArray_of_stack_eq (operation : String) (h : store.stack = below.push (.array ref)) :
    popArray operation store = .ok ref (store.taking 1) := by
  have hpop : pop operation #v[.kind .array] store = .ok #v[.array ref] (store.taking 1) :=
    pop_of_stack_eq operation (h.trans Array.push_eq_append) fun | 0 => rfl
  exact Action.bind_of_ok hpop

theorem popArrayIndex_of_stack_eq (operation : String)
    (h : store.stack = below ++ #[.array ref, v]) :
    popArrayIndex operation store = .ok (ref, v) (store.taking 2) := by
  have hpop : pop operation #v[.kind .array, .any] store =
      .ok #v[.array ref, v] (store.taking 2) :=
    pop_of_stack_eq operation h fun | 0 => rfl | 1 => rfl
  exact Action.bind_of_ok hpop

theorem popArrayIndexValue_of_stack_eq (operation : String)
    (h : store.stack = below ++ #[.array ref, v, w]) :
    popArrayIndexValue operation store = .ok (ref, v, w) (store.taking 3) := by
  have hpop : pop operation #v[.kind .array, .any, .any] store =
      .ok #v[.array ref, v, w] (store.taking 3) :=
    pop_of_stack_eq operation h fun | 0 => rfl | 1 => rfl | 2 => rfl
  exact Action.bind_of_ok hpop

end Store

end GlyphStack
