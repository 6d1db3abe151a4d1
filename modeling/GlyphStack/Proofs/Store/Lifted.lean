import GlyphStack.Proofs.Store.Operands
import GlyphStack.Proofs.Store.Unaliased
import GlyphStack.Proofs.Value.Agreement

/-!
Stores with further values below the bottom of one open stack. What works on the top of a stack does
not see them: the operands of the deeper stack are the same, and what is put on it, taken off it or
gathered from it is the same as on the stack itself. If no value is that stack, nothing that is read
through values sees them either.

Both facts come in one form. The deeper store has `under` below the contents of the stack `base`, and
so below the contents of the current stack it has `floor`, which is `under` if `base` is the current
stack and nothing otherwise.
-/

namespace GlyphStack

variable {base : Ref} {under : Array Value}

/-! ## 1. Storages -/

theorem size_append_sub (below : Array Value) {items : Array Value} {n : Nat}
    (h : n ≤ items.size) : (below ++ items).size - n = below.size + (items.size - n) := by
  rw [Array.size_append, Nat.add_sub_assoc h]

/-- Taking from the top of an array leaves what is below it. -/
theorem shrink_append (below : Array Value) {items : Array Value} {n : Nat} (h : n ≤ items.size) :
    (below ++ items).shrink ((below ++ items).size - n) =
      below ++ items.shrink (items.size - n) := by
  rw [size_append_sub below h, Array.shrink_eq_take, Array.shrink_eq_take, Array.take_eq_extract,
    Array.take_eq_extract, Array.extract_append, Nat.zero_sub, Nat.add_sub_cancel_left,
    Array.extract_eq_self_of_le (Nat.le_add_right _ _)]

/-- The top of an array is the same with more values below. -/
theorem extract_append (below : Array Value) {items : Array Value} {n : Nat} (h : n ≤ items.size) :
    (below ++ items).extract ((below ++ items).size - n) = items.extract (items.size - n) := by
  rw [size_append_sub below h, Array.extract_append, Array.size_append, Nat.add_sub_cancel_left,
    Nat.add_sub_cancel_left, Array.extract_eq_empty_of_le (by omega), Array.empty_append]

namespace Heap

variable {heap : Heap}

/-- A storage is changed alike by changes that agree on its contents. -/
theorem update_congr {ref : Ref} {change change' : Array Value → Array Value}
    (h : change (heap.read ref) = change' (heap.read ref)) :
    heap.update ref change = heap.update ref change' := by
  refine congrArg Heap.mk (Array.ext_getElem? fun i => ?_)
  rw [Array.getElem?_modify, Array.getElem?_modify]
  split
  · rename_i hi
    subst hi
    rw [read, Array.getD_eq_getD_getElem?] at h
    cases hread : heap.storages[ref.index]? with
    | none => rfl
    | some items => simpa [hread] using h
  · rfl

/-- Two changes of one storage make one. -/
theorem update_update (heap : Heap) (ref : Ref) (first second : Array Value → Array Value) :
    (heap.update ref first).update ref second =
      heap.update ref fun items => second (first items) := by
  refine congrArg Heap.mk (Array.ext_getElem? fun i => ?_)
  simp only [update, Array.getElem?_modify]
  split <;> simp [Function.comp_def]

/-- Changes of two storages may be made in either order. -/
theorem update_comm {ref other : Ref} (h : ref ≠ other)
    (change change' : Array Value → Array Value) :
    (heap.update other change').update ref change =
      (heap.update ref change).update other change' := by
  have hindex : ref.index ≠ other.index := fun heq => h (by cases ref; cases other; simp_all)
  refine congrArg Heap.mk (Array.ext_getElem? fun i => ?_)
  simp only [update, Array.getElem?_modify]
  split <;> split <;> simp_all

/-- The heap with further values before the contents of one storage. -/
def lifted (heap : Heap) (base : Ref) (under : Array Value) : Heap :=
  heap.update base (under ++ ·)

@[simp] theorem size_lifted : (heap.lifted base under).size = heap.size :=
  size_update heap base _

theorem read_lifted_self (h : base.index < heap.size) :
    (heap.lifted base under).read base = under ++ heap.read base :=
  read_update_self _ h

theorem read_lifted_of_ne {ref : Ref} (h : ref ≠ base) :
    (heap.lifted base under).read ref = heap.read ref :=
  read_update_of_ne _ h

/-- A change that does on the longer contents what another one does above. -/
theorem update_lifted_self {change change' : Array Value → Array Value}
    (h : change' (under ++ heap.read base) = under ++ change (heap.read base)) :
    (heap.lifted base under).update base change' = (heap.update base change).lifted base under := by
  rw [lifted, lifted, update_update, update_update]
  exact update_congr h

theorem alloc_lifted (h : base.index < heap.size) (items : Array Value) :
    (heap.lifted base under).alloc items =
      ((heap.alloc items).1, (heap.alloc items).2.lifted base under) := by
  have h' : base.index < heap.storages.size := h
  refine Prod.ext ?_ (congrArg Heap.mk (Array.ext_getElem? fun i => ?_))
  · simp [alloc, lifted, update]
  · simp only [alloc, lifted, update, Array.getElem?_push, Array.getElem?_modify, Array.size_modify]
    split <;> split <;> simp_all

/-- A new storage may be added with the further values at once. -/
theorem lifted_alloc_self (heap : Heap) (items : Array Value) :
    (heap.alloc items).2.lifted (heap.alloc items).1 under = (heap.alloc (under ++ items)).2 := by
  refine congrArg Heap.mk (Array.ext_getElem? fun i => ?_)
  simp only [alloc, Array.getElem?_modify, Array.getElem?_push]
  split <;> split <;> simp_all

/-- Where no item is the storage, the other storages read the same and do not lead to it. -/
theorem agrees_lifted (h : ∀ other, .array base ∉ heap.read other) :
    heap.Agrees (· ≠ base) (heap.lifted base under) where
  read_eq _ hne := read_lifted_of_ne hne
  closed other _ v hv ref := by
    rintro rfl rfl
    exact h other hv

/-- The sum of two values is the same, and so is what becomes of the heap. -/
theorem add_lifted {limit : Nat} {a b : Value} (hthere : base.index < heap.size)
    (hbase : ∀ other, .array base ∉ heap.read other) (ha : a.In (· ≠ base))
    (hb : b.In (· ≠ base)) :
    (heap.lifted base under).add limit a b =
      ((heap.add limit a b).1, (heap.add limit a b).2.lifted base under) := by
  have hagrees : heap.Agrees (· ≠ base) (heap.lifted base under) := agrees_lifted hbase
  have hread {ref : Ref} (hv : (Value.array ref).In (· ≠ base)) :
      (heap.lifted base under).read ref = heap.read ref := hagrees.read_eq ref (hv ref rfl)
  unfold add
  rw [hagrees.toNumber_eq ha, hagrees.toNumber_eq hb, hagrees.render_eq ha, hagrees.render_eq hb]
  split
  · rfl
  · dsimp only
    split <;> simp_all [alloc_lifted]

theorem size_le_size_add {limit : Nat} {a b : Value} :
    heap.size ≤ (heap.add limit a b).2.size := by
  unfold add
  split
  · exact Nat.le_refl _
  · dsimp only
    split <;> simp

end Heap

/-! ## 2. The current stack -/

namespace Store

variable {store : Store}

/-- The store with further values below the contents of one stack. -/
def lifted (store : Store) (base : Ref) (under : Array Value) : Store :=
  { store with heap := store.heap.lifted base under }

/-- What the current stack has below its contents in the deeper store. -/
def floor (store : Store) (base : Ref) (under : Array Value) : Array Value :=
  if store.frames.current = base then under else #[]

theorem size_floor_le : (store.floor base under).size ≤ under.size := by
  unfold floor
  split <;> simp

theorem floor_of_ne (h : store.frames.current ≠ base) : store.floor base under = #[] :=
  if_neg h

theorem stack_lifted (h : base.index < store.heap.size) :
    (store.lifted base under).stack = store.floor base under ++ store.stack := by
  by_cases hcurrent : store.frames.current = base
  · rw [floor, if_pos hcurrent]
    show (store.heap.lifted base under).read store.frames.current = _
    rw [hcurrent, Heap.read_lifted_self h, stack, hcurrent]
  · rw [floor_of_ne hcurrent, Array.empty_append]
    exact Heap.read_lifted_of_ne hcurrent

/-- A change of the current stack that leaves what is below its contents where it is. -/
theorem mapStack_lifted {change change' : Array Value → Array Value}
    (h : change' (store.floor base under ++ store.stack) =
      store.floor base under ++ change store.stack) :
    (store.lifted base under).mapStack change' = (store.mapStack change).lifted base under := by
  have hheap : (store.heap.lifted base under).update store.frames.current change' =
      (store.heap.update store.frames.current change).lifted base under := by
    by_cases hcurrent : store.frames.current = base
    · rw [floor, if_pos hcurrent, stack, hcurrent] at h
      rw [hcurrent]
      exact Heap.update_lifted_self h
    · rw [floor_of_ne hcurrent, Array.empty_append, Array.empty_append] at h
      rw [Heap.lifted, Heap.lifted, Heap.update_comm hcurrent, Heap.update_congr h]
  unfold mapStack lifted
  dsimp only
  rw [hheap]

/-- As many values come off as stand there. -/
theorem taking_lifted {n : Nat} (h : n ≤ store.stack.size) :
    (store.lifted base under).taking n = (store.taking n).lifted base under := by
  unfold taking
  exact mapStack_lifted (shrink_append _ h)

/-- A new storage takes nothing from the current stack. -/
theorem size_stack_adding_le (items : Array Value) :
    store.stack.size ≤ (store.adding items).stack.size := by
  show (store.heap.read store.frames.current).size ≤
    ((store.heap.alloc items).2.read store.frames.current).size
  rcases Nat.lt_or_ge store.frames.current.index store.heap.size with hlt | hge
  · exact Nat.le_of_eq (congrArg Array.size (Heap.read_alloc_of_lt items hlt).symm)
  · rw [Heap.read_of_le hge]
    exact Nat.zero_le _

/-- A new storage is the same one. -/
theorem adding_lifted (hthere : base.index < store.heap.size) (items : Array Value) :
    (store.lifted base under).adding items = (store.adding items).lifted base under := by
  unfold adding lifted
  rw [Heap.alloc_lifted hthere]

/-- Where no value is the stack, all values show the same in the deeper store. -/
theorem Unaliased.agrees (h : store.Unaliased base) :
    store.heap.Agrees (· ≠ base) (store.lifted base under).heap :=
  Heap.agrees_lifted h.storages

theorem Unaliased.in_of_mem (h : store.Unaliased base) {ref : Ref} {v : Value}
    (hv : v ∈ store.heap.read ref) : v.In (· ≠ base) := by
  rintro _ rfl rfl
  exact h.storages ref hv

end Store

/-! ## 3. Operands -/

/-- Operands that pass their check pass it on a deeper stack. -/
theorem operandsOf_append {n : Nat} {heap heap' : Heap} {operation : String}
    {types : Vector Expected n} {stack : Array Value} {operands : Vector Value n}
    (h : operandsOf heap operation types stack = .ok operands) (below : Array Value) :
    operandsOf heap' operation types (below ++ stack) = .ok operands := by
  unfold operandsOf at h ⊢
  split at h
  · rename_i enough
    have hdeep : n ≤ (below ++ stack).size := by
      rw [Array.size_append]
      exact Nat.le_add_left_of_le enough
    dsimp only at h
    rw [dif_pos hdeep]
    simp only [extract_append below enough]
    split at h
    · rename_i hmatch
      simpa only [hmatch] using h
    · contradiction
  · contradiction

end GlyphStack
