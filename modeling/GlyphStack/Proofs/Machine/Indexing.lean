import GlyphStack.Proofs.Store.Lifted
import GlyphStack.Proofs.Machine.GatherSpread
import GlyphStack.Proofs.Machine.Slots

/-!
The instructions for items by number. `,` reads an item of the array below the index, `;` assigns
one and `$` removes one, and all of them put the array back. Which item it is, integer indexing
says, and the doubles that the index and the length are find the same one.

The array can be the current stack. Its items are what is left when the operands are off, and it
is changed and put back on itself.
-/

namespace GlyphStack

open Store Number

namespace Store

variable {limits : Limits} {base store : Store} {below items : Array Value} {ref : Ref}
  {above : List Value}

/-! ## 1. Arrays that are changed and put back -/

/-- The store with these items in a storage. -/
def holding (store : Store) (ref : Ref) (items : Array Value) : Store :=
  store.changing ref fun _ => items

theorem changing_eq_holding (store : Store) (ref : Ref) (change : Array Value → Array Value) :
    store.changing ref change = store.holding ref (change (store.heap.read ref)) := by
  have hchange : store.heap.update ref change =
      store.heap.update ref fun _ => change (store.heap.read ref) := Heap.update_congr rfl
  rw [holding, changing, changing, hchange]

theorem holding_read (store : Store) (ref : Ref) :
    store.holding ref (store.heap.read ref) = store := by
  have hsame : store.heap.update ref id = store.heap :=
    congrArg Heap.mk (Array.ext_getElem? fun i => by simp [Array.getElem?_modify])
  refine (changing_eq_holding store ref id).symm.trans ?_
  rw [changing, hsame]

@[simp] theorem size_heap_holding (store : Store) (ref : Ref) (items : Array Value) :
    (store.holding ref items).heap.size = store.heap.size :=
  Heap.size_update store.heap ref _

theorem read_holding_self (hthere : ref.index < store.heap.size) :
    (store.holding ref items).heap.read ref = items :=
  Heap.read_update_self _ hthere

theorem read_holding_of_ne {other : Ref} (h : other ≠ ref) :
    (store.holding ref items).heap.read other = store.heap.read other :=
  read_changing_of_ne store h _

/-- The items of a storage are set under the current stack. -/
theorem OnlyStackChanged.holding {after : Store} (h : OnlyStackChanged base after) (ref : Ref)
    (items : Array Value) : OnlyStackChanged (base.holding ref items) (after.holding ref items) where
  frames := h.frames
  bindings := h.bindings
  output := h.output
  size_le := by simpa using h.size_le
  storages other hthere hother := by
    rw [size_heap_holding] at hthere
    by_cases heq : other = ref
    · subst heq
      rw [read_holding_self (Nat.lt_of_lt_of_le hthere h.size_le), read_holding_self hthere]
    · rw [read_holding_of_ne heq, read_holding_of_ne heq]
      exact h.storages other hthere hother

/-- Pushes values one after the other. -/
def pushEach (limits : Limits) (vs : List Value) : Action Unit :=
  vs.forM (push limits)

theorem pushEach_cons (limits : Limits) (v : Value) (vs : List Value) :
    pushEach limits (v :: vs) = push limits v >>= fun _ => pushEach limits vs := rfl

/-- Values that there is room for go on top of the stack. -/
theorem pushEach_of_le (vs : List Value) (hthere : store.frames.current.index < store.heap.size)
    (hroom : store.stack.size + vs.length ≤ limits.stackSize) :
    ∃ after, pushEach limits vs store = .ok () after ∧
      after.stack = store.stack ++ vs.toArray ∧ OnlyStackChanged store after := by
  induction vs generalizing store with
  | nil => exact ⟨store, rfl, by simp, .refl store⟩
  | cons v vs ih =>
    rw [List.length_cons] at hroom
    have hpushed := OnlyStackChanged.mapStack store (·.push v)
    have hstack : (store.mapStack (·.push v)).stack = store.stack.push v := stack_mapStack _ hthere
    obtain ⟨after, hpushes, hafter, hrest⟩ := @ih (store.mapStack (·.push v))
      (by simpa using hthere) (by rw [hstack, Array.size_push]; omega)
    refine ⟨after, ?_, ?_, hpushed.trans hrest⟩
    · rw [pushEach_cons, Action.bind_of_ok (push_of_lt v (by omega)), hpushes]
    · rw [hafter, hstack]
      simp

/-- An array stands on what was left of the stack, below other values, and has these items. If it is
the current stack, it stands on them. -/
structure PutBack (base : Store) (below : Array Value) (ref : Ref) (items : Array Value)
    (above : List Value) (after : Store) : Prop where
  stack_eq : after.stack = (if ref = base.frames.current then items else below) ++
    (.array ref :: above).toArray
  items_eq : ref.index < base.heap.size → ref ≠ base.frames.current → after.heap.read ref = items
  rest : OnlyStackChanged (base.holding ref items) after

/-- The current stack, read when operands are off. -/
theorem size_eq_of_current {n : Nat} (operands : Vector Value n)
    (hstack : base.stack = below ++ operands.toArray)
    (hitems : (base.taking n).heap.read ref = items) (hself : ref = base.frames.current) :
    items.size = below.size := by
  subst hself
  exact congrArg Array.size (hitems.symm.trans (stack_taking hstack))

/-- Where operands came off, the array that was one of them can be put back. -/
theorem putBack_of_stack_eq {n : Nat} {operands : Vector Value n}
    (hstack : base.stack = below ++ operands.toArray) (hshort : above.length < n)
    (hself : ref = base.frames.current → items.size + above.length < below.size + n)
    (hfits : base.stack.size ≤ limits.stackSize) :
    ∃ after, pushEach limits (.array ref :: above) ((base.taking n).holding ref items) =
        .ok () after ∧ PutBack base below ref items above after := by
  have hthere : base.frames.current.index < base.heap.size :=
    current_lt_of_stack_eq hstack (by simp; omega)
  have hsize : ((base.taking n).holding ref items).heap.size = base.heap.size := by
    simp [taking]
  have hchanged : ((base.taking n).holding ref items).stack =
      if ref = base.frames.current then items else below := by
    split_ifs with hcurrent
    · subst hcurrent
      exact read_holding_self (by simpa [taking] using hthere)
    · exact (read_holding_of_ne (Ne.symm hcurrent)).trans (stack_taking hstack)
  have hroom : ((base.taking n).holding ref items).stack.size +
      (Value.array ref :: above).length ≤ limits.stackSize := by
    have hoff : base.stack.size = below.size + n := by simp [hstack]
    rw [hchanged, List.length_cons]
    split_ifs with hcurrent
    · have := hself hcurrent
      omega
    · omega
  obtain ⟨after, hpushes, hafter, hrest⟩ := pushEach_of_le _ (hsize.symm ▸ hthere) hroom
  have hrest := ((OnlyStackChanged.taking base n).holding ref items).trans hrest
  refine ⟨after, hpushes, hafter.trans (by rw [hchanged]), fun hstored hother => ?_, hrest⟩
  rw [hrest.storages ref (by simpa using hstored) hother, read_holding_self hstored]

/-! ## 2. What one unit does -/

section Perform

variable {index v : Value}

theorem pushEach_singleton (limits : Limits) (v : Value) : pushEach limits [v] = push limits v := by
  rw [pushEach_cons]
  exact bind_pure_unit

/-- The array goes back as it was, below the item. -/
theorem perform_itemGet (limits : Limits) (hstack : store.stack = below ++ #[.array ref, index])
    (hitems : (store.taking 2).heap.read ref = items) :
    perform limits ',' .itemGet store =
      pushEach limits [.array ref, itemAt items
        ((truncate ((store.taking 2).heap.toNumber index)).orWhole 0)]
        ((store.taking 2).holding ref items) := by
  subst hitems
  show (popArrayIndex "," >>= _) store = _
  rw [Action.bind_of_ok (popArrayIndex_of_stack_eq "," hstack), holding_read, pushEach_cons,
    pushEach_singleton, ← getD_itemIndex?]
  rfl

theorem perform_itemDelete (limits : Limits) (hstack : store.stack = below ++ #[.array ref, index])
    (hother : index ≠ .array ref) (hitems : (store.taking 2).heap.read ref = items) :
    perform limits '$' .itemDelete store =
      pushEach limits [.array ref] ((store.taking 2).holding ref (withoutItemAt items
        ((truncate ((store.taking 2).heap.toNumber index)).orWhole 0))) := by
  subst hitems
  show (popArrayIndex "$" >>= _) store = _
  rw [Action.bind_of_ok (popArrayIndex_of_stack_eq "$" hstack), pushEach_singleton, ← removeItem_eq,
    ← changing_eq_holding _ _ (removeItem · _)]
  dsimp only
  rw [indexInto_of_ne hother]
  rfl

theorem perform_itemSet (limits : Limits) (hstack : store.stack = below ++ #[.array ref, index, v])
    (hother : index ≠ .array ref) (hitems : (store.taking 3).heap.read ref = items) :
    perform limits ';' .itemSet store =
      pushEach limits [.array ref] ((store.taking 3).holding ref (withItemAt items
        ((truncate ((store.taking 3).heap.toNumber index)).orWhole items.size) v)) := by
  subst hitems
  show (popArrayIndexValue ";" >>= _) store = _
  rw [Action.bind_of_ok (popArrayIndexValue_of_stack_eq ";" hstack), pushEach_singleton,
    ← assignItem_eq, ← changing_eq_holding _ _ (assignItem · _ v)]
  dsimp only
  rw [indexInto_of_ne hother]
  rfl

end Perform

end Store

/-! ## 3. Machines -/

namespace Machine

variable {machine : Machine} {below items : Array Value} {popped : Store} {ref : Ref}
  {above : List Value}

/-- The machine, which is at a unit of one character, gives an array that it took off these items and
pushes it back, and the other values on top of it. `popped` is the store without the operands. If
the stack was within the limit, there is room for all of them. -/
structure PutsBack (machine : Machine) (popped : Store) (below : Array Value) (ref : Ref)
    (items : Array Value) (above : List Value) : Prop where
  carries : machine.Carries ((do
    pushEach machine.limits (.array ref :: above)
    return machine.position + 1 : Action Nat) (popped.holding ref items))
  continues : machine.store.stack.size ≤ machine.limits.stackSize →
    ∃ store, machine.step = (.continued, { machine with store, position := machine.position + 1 }) ∧
      PutBack machine.store below ref items above store

/-- A unit puts an array back if its instruction does. -/
theorem putsBack_of_perform {n : Nat} (operands : Vector Value n) {instruction : Instruction}
    {first : Char} {tail : List Char} (hrunning : machine.halted = false)
    (hrest : machine.program.rest machine.position = first :: tail)
    (hunit : dispatch machine.program machine.limits machine.position first tail =
      (do perform machine.limits first instruction; return machine.position + 1))
    (hperform : perform machine.limits first instruction machine.store =
      pushEach machine.limits (.array ref :: above) ((machine.store.taking n).holding ref items))
    (hstack : machine.store.stack = below ++ operands.toArray) (hshort : above.length < n)
    (hself : ref = machine.store.frames.current → items.size + above.length < below.size + n) :
    PutsBack machine (machine.store.taking n) below ref items above where
  carries := by
    refine ⟨hrunning, first, tail, hrest, ?_⟩
    rw [hunit]
    show EStateM.bind _ _ _ = EStateM.bind _ _ _
    unfold EStateM.bind
    rw [hperform]
  continues hfits := by
    obtain ⟨store, hpushes, hback⟩ := putBack_of_stack_eq hstack hshort hself hfits
    exact ⟨store, step_of_perform hrunning hrest hunit (hperform.trans hpushes), hback⟩

/-- **Items by number follow integer indexing.** A machine is at `,`, `$` or `;` with the operands on
top of its stack: an array, an index and, for `;`, a value. Let `items` be the items of the array and
`x` the number of the index, both read when the operands are off, and let there be fewer than `2^53`
items. Truncated, `x` is an integer or infinite; not-a-number counts as 0, and for `;` as the number of
items. The slot that integer indexing gives for that is the place that the doubles come to, so no
access is out of range. Then `,` puts the array back and on top of it the item of the slot, or absent;
`$` puts it back without that item, and `;` with the value in the slot, if there is one. There is room
for what is put back unless the stack was over its limit before. -/
theorem items_by_integer_index (machine : Machine) (below : Array Value) (ref : Ref) (index : Value)
    (hrunning : machine.halted = false) :
    (∀ tail items x, machine.program.rest machine.position = ',' :: tail →
      machine.store.stack = below ++ #[.array ref, index] →
      (machine.store.taking 2).heap.read ref = items → items.size < 2 ^ 53 →
      (machine.store.taking 2).heap.toNumber index = x →
      resolveIndex (indexOr zero x) items.size =
          (slot? items.size ((truncate x).orWhole 0)).map Fin.val ∧
        PutsBack machine (machine.store.taking 2) below ref items
          [itemAt items ((truncate x).orWhole 0)]) ∧
    (∀ tail items x, machine.program.rest machine.position = '$' :: tail →
      machine.store.stack = below ++ #[.array ref, index] → index ≠ .array ref →
      (machine.store.taking 2).heap.read ref = items → items.size < 2 ^ 53 →
      (machine.store.taking 2).heap.toNumber index = x →
      resolveIndex (indexOr zero x) items.size =
          (slot? items.size ((truncate x).orWhole 0)).map Fin.val ∧
        PutsBack machine (machine.store.taking 2) below ref
          (withoutItemAt items ((truncate x).orWhole 0)) []) ∧
    ∀ tail v items x, machine.program.rest machine.position = ';' :: tail →
      machine.store.stack = below ++ #[.array ref, index, v] → index ≠ .array ref →
      (machine.store.taking 3).heap.read ref = items → items.size < 2 ^ 53 →
      (machine.store.taking 3).heap.toNumber index = x →
      resolveAssigned (indexOr (ofCount items.size) x) items.size =
          (assignedSlot? items.size ((truncate x).orWhole items.size)).map Fin.val ∧
        PutsBack machine (machine.store.taking 3) below ref
          (withItemAt items ((truncate x).orWhole items.size) v) [] := by
  refine ⟨?get, ?delete, ?set⟩
  case get =>
    rintro tail items x hrest hstack hitems hsize rfl
    refine ⟨resolveIndex_indexOr _ hsize, ?_⟩
    refine putsBack_of_perform #v[.array ref, index] hrunning hrest rfl
      (perform_itemGet machine.limits hstack hitems) hstack Nat.one_lt_two fun hself => ?_
    have hleft := size_eq_of_current #v[.array ref, index] hstack hitems hself
    rw [hleft]
    exact Nat.lt_succ_self _
  case delete =>
    rintro tail items x hrest hstack hother hitems hsize rfl
    refine ⟨resolveIndex_indexOr _ hsize, ?_⟩
    refine putsBack_of_perform #v[.array ref, index] hrunning hrest rfl
      (perform_itemDelete machine.limits hstack hother hitems) hstack two_pos fun hself => ?_
    have hleft := size_eq_of_current #v[.array ref, index] hstack hitems hself
    rw [← removeItem_eq, List.length_nil]
    have hle := size_removeItem_le items (truncate ((machine.store.taking 2).heap.toNumber index))
    omega
  case set =>
    rintro tail v items x hrest hstack hother hitems hsize rfl
    refine ⟨resolveAssigned_indexOr _ hsize, ?_⟩
    refine putsBack_of_perform #v[.array ref, index, v] hrunning hrest rfl
      (perform_itemSet machine.limits hstack hother hitems) hstack three_pos fun hself => ?_
    have hleft := size_eq_of_current #v[.array ref, index, v] hstack hitems hself
    rw [← assignItem_eq, List.length_nil]
    have hle := size_assignItem_le items (truncate ((machine.store.taking 3).heap.toNumber index)) v
    omega

/-- Texts are numbers too: the last item is read, the first of the current stack itself is removed,
and a text that is not a number means the place behind the last item. -/
theorem items_by_text_index :
    let reading := (onHeap .empty ",").withFrames
      [#[.string "a", .string "b"], #[.array ⟨1⟩, .string "-1"]]
    let removing := (onHeap .empty "$").withFrames
      [#[.string "a", .string "b", .array ⟨1⟩, .string "0.5"]]
    let assigning := (onHeap .empty ";").withFrames
      [#[.string "a"], #[.array ⟨1⟩, .string "x", .string "c"]]
    (∃ store, reading.step = (.continued, { reading with store, position := 1 }) ∧
      store.stack = #[.array ⟨1⟩, .string "b"]) ∧
    (∃ store, removing.step = (.continued, { removing with store, position := 1 }) ∧
      store.stack = #[.string "b", .array ⟨1⟩]) ∧
    ∃ store, assigning.step = (.continued, { assigning with store, position := 1 }) ∧
      store.stack = #[.array ⟨1⟩] ∧ store.heap.read ⟨1⟩ = #[.string "a", .string "c"] := by
  intro reading removing assigning
  have hlast : slot? (#[.string "a", .string "b"] : Array Value).size
      ((truncate (readNumber "-1")).orWhole 0) = some ⟨1, by decide⟩ := by decide +kernel
  have hfirst : slot? (#[.string "a", .string "b"] : Array Value).size
      ((truncate (readNumber "0.5")).orWhole 0) = some ⟨0, by decide⟩ := by decide +kernel
  have hbehind : assignedSlot? (#[.string "a"] : Array Value).size
      ((truncate (readNumber "x")).orWhole 1) = some ⟨1, by decide⟩ := by decide +kernel
  have hread := (items_by_integer_index reading #[] ⟨1⟩ (.string "-1") rfl).1
    [] #[.string "a", .string "b"] (readNumber "-1") rfl rfl rfl (by decide) rfl
  have hremoved := (items_by_integer_index removing #[.string "a", .string "b"] ⟨1⟩
    (.string "0.5") rfl).2.1
    [] #[.string "a", .string "b"] (readNumber "0.5") rfl rfl nofun rfl (by decide) rfl
  have hassigned := (items_by_integer_index assigning #[] ⟨1⟩ (.string "x") rfl).2.2
    [] (.string "c") #[.string "a"] (readNumber "x") rfl rfl nofun rfl (by decide) rfl
  obtain ⟨read, hreads, hread⟩ := hread.2.continues (by decide)
  obtain ⟨removed, hremoves, hremoved⟩ := hremoved.2.continues (by decide)
  obtain ⟨assigned, hassigns, hassigned⟩ := hassigned.2.continues (by decide)
  rw [itemAt_of_slot? hlast] at hread
  have hrest : (#[.string "a", .string "b"] : Array Value).eraseIdx 0 = #[.string "b"] := by simp
  rw [(withoutItemAt_of_slot? hfirst).trans hrest] at hremoved
  have hstored := (hassigned.items_eq (by decide) nofun).trans
    (withItemAt_of_assignedSlot? _ hbehind rfl)
  exact ⟨⟨read, hreads, hread.stack_eq⟩, ⟨removed, hremoves, hremoved.stack_eq⟩,
    assigned, hassigns, hassigned.stack_eq, hstored⟩

end Machine

end GlyphStack
