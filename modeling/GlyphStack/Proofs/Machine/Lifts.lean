import GlyphStack.Proofs.Machine.Effect
import GlyphStack.Proofs.Store.Lifted

/-!
What units do where one open stack is deeper. `Lifts` says of two results that if the first one is an
answer, the second one is the same answer and leaves the lifted store. Nothing is said where the first
one is a fault. It holds of every action from a store and from the lifted one, under limits that leave
as much more room, if no value is the deeper stack; and it is kept where actions follow one another.

There are two kinds of exceptions, both on the deeper stack. Four instructions look at the top value
without a check, and go on if there is none: `.` and `=`, for the value below the name, take an absent
value instead, and `:` and `_` do nothing. And `]` can close that stack, and then it is a longer array.
-/

namespace GlyphStack

open Store

/-- Limits under which every stack may hold `n` values more. -/
def Limits.lifted (limits : Limits) (n : Nat) : Limits :=
  { limits with stackSize := limits.stackSize + n }

/-! ## 1. Actions -/

/-- If the first result is an answer, it is as `post` says, and the second result is the same answer
with the lifted store. -/
def Lifts {α : Type} (base : Ref) (under : Array Value)
    (result result' : EStateM.Result Fault Store α) (post : α → Store → Prop) : Prop :=
  ∀ a after, result = .ok a after → post a after ∧ result' = .ok a (after.lifted base under)

namespace Lifts

variable {α β : Type} {base : Ref} {under : Array Value} {store : Store}
  {mid post : α → Store → Prop}

theorem ok {a : α} {after : Store} (h : post a after) :
    Lifts base under (.ok a after) (.ok a (after.lifted base under)) post := by
  intro b last hresult
  cases hresult
  exact ⟨h, rfl⟩

theorem error {fault : Fault} {after : Store} {result' : EStateM.Result Fault Store α} :
    Lifts base under (.error fault after) result' post := by
  intro b last hresult
  contradiction

/-- Less may be said of the answer. -/
theorem imp {result result' : EStateM.Result Fault Store α} (h : Lifts base under result result' mid)
    (himp : ∀ a after, mid a after → post a after) : Lifts base under result result' post := by
  intro a after hresult
  exact (h a after hresult).imp_left (himp a after)

theorem bind {act act' : Action α} {next next' : α → Action β} {post : β → Store → Prop}
    (h : Lifts base under (act store) (act' (store.lifted base under)) mid)
    (hnext : ∀ a after, mid a after →
      Lifts base under (next a after) (next' a (after.lifted base under)) post) :
    Lifts base under ((act >>= next) store) ((act' >>= next') (store.lifted base under)) post := by
  intro b last hresult
  obtain ⟨a, between, hact, hrest⟩ := Action.bind_eq_ok_iff.mp hresult
  obtain ⟨hmid, hact'⟩ := h a between hact
  rw [Action.bind_of_ok hact']
  exact hnext a between hmid b last hrest

theorem get {next next' : Store → Action α}
    (h : Lifts base under (next store store)
      (next' (store.lifted base under) (store.lifted base under)) post) :
    Lifts base under ((MonadState.get >>= next) store)
      ((MonadState.get >>= next') (store.lifted base under)) post := h

theorem lift {result : Except Fault α} (h : ∀ a, result = .ok a → post a store) :
    Lifts base under ((liftExcept result : Action α) store)
      ((liftExcept result : Action α) (store.lifted base under)) post := by
  cases result with
  | ok a => exact ok (h a rfl)
  | error fault => exact error

theorem result {result : Except Fault α} :
    Lifts base under ((liftExcept result : Action α) store)
      ((liftExcept result : Action α) (store.lifted base under)) fun _ after => after = store :=
  lift fun _ _ => rfl

theorem ite {condition : Prop} [Decidable condition] {act other act' other' : Action α}
    (h : condition → Lifts base under (act store) (act' (store.lifted base under)) post)
    (hother : ¬ condition → Lifts base under (other store) (other' (store.lifted base under)) post) :
    Lifts base under ((if condition then act else other) store)
      ((if condition then act' else other') (store.lifted base under)) post := by
  by_cases hcondition : condition
  · rw [if_pos hcondition, if_pos hcondition]
    exact h hcondition
  · rw [if_neg hcondition, if_neg hcondition]
    exact hother hcondition

end Lifts

section Actions

variable {base : Ref} {under : Array Value} {limits : Limits} {store : Store}

/-- The current stack of the deeper store has room for as many values as that of the store. -/
theorem room_lifted (hthere : base.index < store.heap.size) {n : Nat}
    (hroom : store.stack.size + n ≤ limits.stackSize) :
    (store.lifted base under).stack.size + n ≤ (limits.lifted under.size).stackSize := by
  have hfloor : (store.floor base under).size ≤ under.size := size_floor_le
  rw [stack_lifted hthere, Array.size_append]
  show _ ≤ limits.stackSize + under.size
  omega

theorem lifts_push (hthere : base.index < store.heap.size) (v : Value) :
    Lifts base under (push limits v store)
      (push (limits.lifted under.size) v (store.lifted base under))
      fun _ after => base.index < after.heap.size := by
  rcases Nat.lt_or_ge store.stack.size limits.stackSize with hroom | hfull
  · have hpushed : (store.lifted base under).mapStack (·.push v) =
        (store.mapStack (·.push v)).lifted base under := mapStack_lifted Array.push_append
    rw [push_of_lt v hroom, push_of_lt v (room_lifted (n := 1) hthere hroom), hpushed]
    exact .ok (by simpa using hthere)
  · rw [push_of_le v hfull]
    exact .error

theorem lifts_pushAll (hthere : base.index < store.heap.size) (vs : Array Value) :
    Lifts base under (pushAll limits vs store)
      (pushAll (limits.lifted under.size) vs (store.lifted base under)) fun _ _ => True := by
  refine .get ?_
  by_cases hroom : store.stack.size + vs.size ≤ limits.stackSize
  · have hpushed : (store.lifted base under).mapStack (· ++ vs) =
        (store.mapStack (· ++ vs)).lifted base under := mapStack_lifted Array.append_assoc
    rw [if_pos hroom, if_pos (room_lifted hthere hroom)]
    show Lifts base under (.ok () (store.mapStack (· ++ vs)))
      (.ok () ((store.lifted base under).mapStack (· ++ vs))) _
    rw [hpushed]
    exact .ok trivial
  · rw [if_neg hroom]
    exact .error

/-- Operands come off both stacks, and none of them is the deeper stack. -/
theorem lifts_pop {n : Nat} {operation : String} {types : Vector Expected n}
    (h : store.Unaliased base) :
    Lifts base under (pop operation types store) (pop operation types (store.lifted base under))
      fun operands after => after = store.taking n ∧ n ≤ store.stack.size ∧
        ∀ i (hi : i < n), operands[i].In (· ≠ base) := by
  cases hpop : operandsOf store.heap operation types store.stack with
  | error fault =>
    rw [pop_of_error hpop]
    exact .error
  | ok operands =>
    have hstack := (of_operandsOf hpop).1
    have henough : n ≤ store.stack.size := by
      rw [hstack, Array.size_append, Vector.size_toArray]
      exact Nat.le_add_left _ _
    have hpop' : operandsOf (store.lifted base under).heap operation types
        (store.lifted base under).stack = .ok operands := by
      rw [stack_lifted h.there]
      exact operandsOf_append hpop _
    have htaken : (store.lifted base under).mapStack (fun stack => stack.shrink (stack.size - n)) =
        (store.taking n).lifted base under := taking_lifted henough
    rw [pop_of_ok hpop, pop_of_ok hpop', htaken]
    refine .ok ⟨rfl, henough, fun i hi => ?_⟩
    have hmem : operands[i] ∈ store.stack := by
      rw [hstack]
      exact Array.mem_append_right _ (Array.getElem_mem _)
    exact h.in_of_mem hmem

theorem lifts_popOne {operation : String} (h : store.Unaliased base) :
    Lifts base under (popOne operation store) (popOne operation (store.lifted base under))
      fun v after => after = store.taking 1 ∧ 1 ≤ store.stack.size ∧ v.In (· ≠ base) :=
  (lifts_pop h).bind fun _ _ ⟨hafter, henough, hin⟩ => .ok ⟨hafter, henough, hin 0 (by decide)⟩

theorem lifts_popTwo {operation : String} (h : store.Unaliased base) :
    Lifts base under (popTwo operation store) (popTwo operation (store.lifted base under))
      fun (a, b) after => after = store.taking 2 ∧ a.In (· ≠ base) ∧ b.In (· ≠ base) :=
  (lifts_pop h).bind fun _ _ ⟨hafter, _, hin⟩ =>
    .ok ⟨hafter, hin 0 (by decide), hin 1 (by decide)⟩

theorem lifts_expectArray {operation : String} {v : Value} (hv : v.In (· ≠ base)) :
    Lifts base under ((liftExcept (v.expectArray operation) : Action Ref) store)
      ((liftExcept (v.expectArray operation) : Action Ref) (store.lifted base under))
      fun ref after => after = store ∧ ref ≠ base :=
  .lift fun ref href => ⟨rfl, hv ref (Value.eq_of_expectArray href)⟩

theorem lifts_popArray {operation : String} (h : store.Unaliased base) :
    Lifts base under (popArray operation store) (popArray operation (store.lifted base under))
      fun ref after => after = store.taking 1 ∧ ref ≠ base := by
  refine (lifts_pop h).bind ?_
  rintro operands _ ⟨rfl, -, hin⟩
  exact lifts_expectArray (hin 0 (by decide))

theorem lifts_popArrayIndex {operation : String} (h : store.Unaliased base) :
    Lifts base under (popArrayIndex operation store)
      (popArrayIndex operation (store.lifted base under))
      fun (ref, index) after => after = store.taking 2 ∧ ref ≠ base ∧ index.In (· ≠ base) := by
  refine (lifts_pop h).bind ?_
  rintro operands _ ⟨rfl, -, hin⟩
  exact (lifts_expectArray (hin 0 (by decide))).bind fun ref after ⟨hafter, href⟩ =>
    .ok ⟨hafter, href, hin 1 (by decide)⟩

theorem lifts_popArrayIndexValue {operation : String} (h : store.Unaliased base) :
    Lifts base under (popArrayIndexValue operation store)
      (popArrayIndexValue operation (store.lifted base under))
      fun (ref, index, _) after => after = store.taking 3 ∧ ref ≠ base ∧ index.In (· ≠ base) := by
  refine (lifts_pop h).bind ?_
  rintro operands _ ⟨rfl, -, hin⟩
  exact (lifts_expectArray (hin 0 (by decide))).bind fun ref after ⟨hafter, href⟩ =>
    .ok ⟨hafter, href, hin 1 (by decide)⟩

/-! ## 2. Reading -/

/-- The number of a value is the same in the deeper store. -/
theorem lifts_numberOf {v : Value} (h : store.Unaliased base) (hv : v.In (· ≠ base)) :
    Lifts base under (numberOf v store) (numberOf v (store.lifted base under))
      fun _ after => after = store := by
  show Lifts base under (.ok (store.heap.toNumber v) store)
    (.ok ((store.lifted base under).heap.toNumber v) (store.lifted base under)) _
  rw [h.agrees.toNumber_eq hv]
  exact .ok rfl

/-- So is that of an index into a storage that is being changed. -/
theorem lifts_indexInto {ref : Ref} {index : Value} (h : store.Unaliased base)
    (hindex : index.In (· ≠ base)) :
    Lifts base under (indexInto ref index store) (indexInto ref index (store.lifted base under))
      fun _ after => after = store := by
  by_cases hself : index = .array ref
  · subst hself
    rw [indexInto_self]
    exact .error
  · rw [indexInto_of_ne hself]
    exact lifts_numberOf h hindex

theorem lifts_textOf {v : Value} (h : store.Unaliased base) (hv : v.In (· ≠ base)) :
    Lifts base under (textOf limits v store)
      (textOf (limits.lifted under.size) v (store.lifted base under))
      fun _ after => after = store := by
  show Lifts base under (.ok (store.heap.render limits.nesting v) store)
    (.ok ((store.lifted base under).heap.render limits.nesting v) (store.lifted base under)) _
  rw [h.agrees.render_eq hv]
  exact .ok rfl

/-- The top value is the same, unless there is none on the deeper stack. -/
theorem lifts_top? (h : store.Unaliased base)
    (hrest : store.frames.current = base → store.stack.size ≠ 0) :
    Lifts base under (top? store) (top? (store.lifted base under))
      fun v? after => after = store ∧ ∀ v, v? = some v → v.In (· ≠ base) := by
  have hback : (store.floor base under ++ store.stack).back? = store.stack.back? := by
    by_cases hcurrent : store.frames.current = base
    · have hsome : store.stack.back? ≠ none := by
        simpa using hrest hcurrent
      rw [Array.back?_append, Option.or_of_isSome (Option.isSome_iff_ne_none.mpr hsome)]
    · rw [floor_of_ne hcurrent, Array.empty_append]
  show Lifts base under (.ok store.stack.back? store)
    (.ok (store.lifted base under).stack.back? (store.lifted base under)) _
  rw [stack_lifted h.there, hback]
  exact .ok ⟨rfl, fun v hv => h.in_of_mem (Array.mem_of_back? hv)⟩

theorem lifts_top (h : store.Unaliased base)
    (hrest : store.frames.current = base → store.stack.size ≠ 0) :
    Lifts base under (top store) (top (store.lifted base under))
      fun v after => after = store ∧ v.In (· ≠ base) := by
  refine (lifts_top? h hrest).bind fun v? after ⟨hafter, hin⟩ => .ok ⟨hafter, ?_⟩
  cases v? with
  | none => exact fun ref href => by contradiction
  | some v => exact hin v rfl

/-- A literal is read in the text, and not in the store. -/
theorem lifts_literal {α : Type} {start : Nat} (read : Except Malformation α) :
    Lifts base under (literal start read store) (literal start read (store.lifted base under))
      fun _ after => after = store := by
  cases read with
  | ok a => exact .ok rfl
  | error fault => exact .error

theorem lifts_getVariable (name : String) :
    Lifts base under (getVariable name store) (getVariable name (store.lifted base under))
      fun _ after => after = store :=
  Lifts.ok rfl

/-- The top value is dropped from both stacks, unless there is none on the deeper stack. -/
theorem lifts_discard (hrest : store.frames.current = base → store.stack.size ≠ 0) :
    Lifts base under (discard store) (discard (store.lifted base under)) fun _ _ => True := by
  have hpop : (store.floor base under ++ store.stack).pop =
      store.floor base under ++ store.stack.pop := by
    by_cases hcurrent : store.frames.current = base
    · have hne : store.stack ≠ #[] := fun hempty => hrest hcurrent (by rw [hempty]; rfl)
      exact Array.pop_append_of_ne_empty hne
    · rw [floor_of_ne hcurrent, Array.empty_append, Array.empty_append]
  have hdropped : (store.lifted base under).mapStack (·.pop) =
      (store.mapStack (·.pop)).lifted base under := mapStack_lifted hpop
  show Lifts base under (.ok () (store.mapStack (·.pop)))
    (.ok () ((store.lifted base under).mapStack (·.pop))) _
  rw [hdropped]
  exact .ok trivial

/-! ## 3. New arrays and open stacks -/

theorem lifts_sumOf {a b : Value} (h : store.Unaliased base) (ha : a.In (· ≠ base))
    (hb : b.In (· ≠ base)) :
    Lifts base under (sumOf limits a b store)
      (sumOf (limits.lifted under.size) a b (store.lifted base under))
      fun _ after => base.index < after.heap.size := by
  show Lifts base under
    (.ok (store.heap.add limits.nesting a b).1
      { store with heap := (store.heap.add limits.nesting a b).2 })
    (.ok ((store.lifted base under).heap.add limits.nesting a b).1
      { store with heap := ((store.lifted base under).heap.add limits.nesting a b).2 }) _
  have hsum : (store.lifted base under).heap.add limits.nesting a b =
      ((store.heap.add limits.nesting a b).1,
        (store.heap.add limits.nesting a b).2.lifted base under) :=
    Heap.add_lifted h.there h.storages ha hb
  rw [hsum]
  exact .ok (Nat.lt_of_lt_of_le h.there Heap.size_le_size_add)

theorem lifts_gather {operation : String} {count : Nat} (hthere : base.index < store.heap.size) :
    Lifts base under (gather operation count store)
      (gather operation count (store.lifted base under))
      fun _ after => base.index < after.heap.size := by
  rcases Nat.lt_or_ge store.stack.size count with hfew | henough
  · rw [gather_of_lt hfew]
    exact .error
  · have hstack : (store.lifted base under).stack = store.floor base under ++ store.stack :=
      stack_lifted hthere
    have hdeep : count ≤ (store.lifted base under).stack.size := by
      rw [hstack, Array.size_append]
      exact Nat.le_add_left_of_le henough
    let items := store.stack.extract (store.stack.size - count)
    have hitems : (store.lifted base under).stack.extract
        ((store.lifted base under).stack.size - count) = items := by
      rw [hstack, extract_append _ henough]
    have hadded : count ≤ (store.adding items).stack.size :=
      Nat.le_trans henough (size_stack_adding_le items)
    rw [gather_of_le henough, gather_of_le hdeep, hitems, adding_lifted hthere,
      taking_lifted hadded]
    have hsize : base.index < ((store.adding items).taking count).heap.size := by
      simp only [taking, size_heap_mapStack, adding, Heap.size_alloc]
      exact Nat.lt_succ_of_lt hthere
    have hsame : (store.lifted base under).heap.size = store.heap.size := Heap.size_lifted
    rw [hsame]
    exact .ok hsize

theorem lifts_openFrame (hthere : base.index < store.heap.size) :
    Lifts base under (openFrame limits store)
      (openFrame (limits.lifted under.size) (store.lifted base under)) fun _ _ => True := by
  have hsame : (store.lifted base under).heap.size = store.heap.size := Heap.size_lifted
  rw [openFrame_eq, openFrame_eq, adding_lifted hthere, hsame]
  by_cases hdepth : store.frames.depth < limits.frameDepth
  · have hdepth' : (store.lifted base under).frames.depth <
        (limits.lifted under.size).frameDepth := hdepth
    rw [if_pos hdepth, if_pos hdepth']
    exact .ok trivial
  · rw [if_neg hdepth]
    exact .error

theorem lifts_openArray (ref : Ref) :
    Lifts base under (openArray limits ref store)
      (openArray (limits.lifted under.size) ref (store.lifted base under)) fun _ _ => True := by
  unfold openArray
  dsimp only
  by_cases hdepth : store.frames.depth < limits.frameDepth
  · have hdepth' : (store.lifted base under).frames.depth <
        (limits.lifted under.size).frameDepth := hdepth
    rw [if_pos hdepth, if_pos hdepth']
    exact .ok trivial
  · rw [if_neg hdepth]
    exact .error

/-- A stack that is not the only one is the same array in the deeper store. -/
theorem lifts_closeFrame (hthere : base.index < store.heap.size) (hdeep : store.frames.depth ≠ 1) :
    Lifts base under (closeFrame limits store)
      (closeFrame (limits.lifted under.size) (store.lifted base under)) fun _ _ => True := by
  obtain ⟨outer, hclose⟩ : ∃ outer, store.frames.closeOne? = some outer :=
    Option.ne_none_iff_exists'.mp fun hnone => hdeep (Frames.closeOne?_eq_none_iff.mp hnone)
  have hclose' : (store.lifted base under).frames.closeOne? = some outer := hclose
  rw [closeFrame_of_closeOne? hclose, closeFrame_of_closeOne? hclose']
  let closed : Store := { store with frames := outer }
  have hclosed : base.index < closed.heap.size := hthere
  exact (lifts_push hclosed (.array store.frames.current)).imp fun _ _ _ => trivial

/-- The items of an array are changed alike. -/
theorem lifts_modifyStorage {ref : Ref} (href : ref ≠ base) (hthere : base.index < store.heap.size)
    (change : Array Value → Array Value) :
    Lifts base under (modifyStorage ref change store)
      (modifyStorage ref change (store.lifted base under))
      fun _ after => base.index < after.heap.size := by
  show Lifts base under (.ok () (store.changing ref change))
    (.ok () ((store.lifted base under).changing ref change)) _
  have hchanged : (store.lifted base under).changing ref change =
      (store.changing ref change).lifted base under := by
    unfold changing lifted Heap.lifted
    rw [Heap.update_comm href]
  rw [hchanged]
  exact .ok (by simpa [changing] using hthere)

end Actions

/-! ## 4. Units -/

/-- The unit comes to the bottom of the only stack that is open, and goes on there: it closes that
stack, or it looks at the top value where there is none. -/
def Store.looksBelow (store : Store) (instruction : Instruction) : Bool :=
  store.frames.depth = 1 &&
    match instruction with
    | .closeFrame => true
    | .print | .dup | .discard => store.stack.size = 0
    | .store => store.stack.size = 1
    | _ => false

section Unit

variable {base : Ref} {under : Array Value} {limits : Limits} {store : Store}

theorem lifts_perform (first : Char) {instruction : Instruction} (h : store.Unaliased base)
    (honly : store.frames.current = base → store.frames.depth = 1)
    (hlooks : store.looksBelow instruction = false) :
    Lifts base under (perform limits first instruction store)
      (perform (limits.lifted under.size) first instruction (store.lifted base under))
      fun _ _ => True := by
  have htaken (n : Nat) : (store.taking n).Unaliased base := h.taking n
  have hpush {store : Store} (hthere : base.index < store.heap.size) (v : Value) :
      Lifts base under (push limits v store)
        (push (limits.lifted under.size) v (store.lifted base under)) fun _ _ => True :=
    (lifts_push hthere v).imp fun _ _ _ => trivial
  -- where the top value is looked at without a check, there is one on the deeper stack
  have hrest (hinstruction : instruction = .print ∨ instruction = .dup ∨ instruction = .discard)
      (hcurrent : store.frames.current = base) : store.stack.size ≠ 0 := by
    rcases hinstruction with rfl | rfl | rfl <;>
      simpa [looksBelow, honly hcurrent] using hlooks
  cases instruction with
  | add =>
    refine (lifts_popTwo h).bind ?_
    rintro ⟨a, b⟩ _ ⟨rfl, ha, hb⟩
    exact (lifts_sumOf (htaken 2) ha hb).bind fun sum after hafter => hpush hafter sum
  | arithmetic operator =>
    refine (lifts_popTwo h).bind ?_
    rintro ⟨a, b⟩ _ ⟨rfl, ha, hb⟩
    refine .get ?_
    rw [(htaken 2).agrees.arithmetic_eq operator ha hb]
    exact hpush (htaken 2).there _
  | compare =>
    refine (lifts_popTwo h).bind ?_
    rintro ⟨a, b⟩ _ ⟨rfl, ha, hb⟩
    refine .get ?_
    rw [(htaken 2).agrees.compare_eq ha hb]
    exact Lifts.result.bind fun ordering after hafter => hpush (hafter ▸ (htaken 2).there) _
  | not =>
    refine (lifts_popOne h).bind ?_
    rintro v _ ⟨rfl, -, -⟩
    exact hpush (htaken 1).there _
  | zero => exact hpush h.there _
  | openFrame => exact lifts_openFrame h.there
  | openArray =>
    refine (lifts_popArray h).bind ?_
    rintro ref _ ⟨rfl, -⟩
    exact lifts_openArray ref
  | closeFrame =>
    have hdeep : store.frames.depth ≠ 1 := by simpa [looksBelow] using hlooks
    exact lifts_closeFrame h.there hdeep
  | print =>
    refine (lifts_top h (hrest (.inl rfl))).bind ?_
    rintro v _ ⟨rfl, hv⟩
    refine (lifts_textOf h hv).bind ?_
    rintro text _ rfl
    exact .ok trivial
  | dup =>
    refine (lifts_top? h (hrest (.inr (.inl rfl)))).bind ?_
    rintro v? _ ⟨rfl, -⟩
    cases v? with
    | none => exact .ok trivial
    | some v => exact hpush h.there v
  | discard => exact lifts_discard (hrest (.inr (.inr rfl)))
  | store =>
    refine (lifts_popOne h).bind ?_
    rintro name _ ⟨rfl, henough, hname⟩
    have hnotLast (hcurrent : (store.taking 1).frames.current = base) :
        (store.taking 1).stack.size ≠ 0 := by
      have hcurrent : store.frames.current = base := hcurrent
      have hnamed : store.stack.size ≠ 1 := by simpa [looksBelow, honly hcurrent] using hlooks
      have hstack : (store.taking 1).stack = store.stack.shrink (store.stack.size - 1) :=
        stack_mapStack _ (hcurrent ▸ h.there)
      rw [hstack, Array.size_shrink]
      omega
    refine (lifts_textOf (htaken 1) hname).bind ?_
    rintro text _ rfl
    refine (lifts_top (htaken 1) hnotLast).bind ?_
    rintro v _ ⟨rfl, -⟩
    exact .ok trivial
  | load =>
    refine (lifts_popOne h).bind ?_
    rintro name _ ⟨rfl, -, hname⟩
    refine (lifts_textOf (htaken 1) hname).bind ?_
    rintro text _ rfl
    exact (lifts_getVariable text).bind fun v after hafter => hpush (hafter ▸ (htaken 1).there) v
  | gather =>
    refine (lifts_popOne h).bind ?_
    rintro count _ ⟨rfl, -, hcount⟩
    refine (lifts_numberOf (htaken 1) hcount).bind ?_
    rintro x _ rfl
    exact (lifts_gather (htaken 1).there).bind fun v after hafter => hpush hafter v
  | spread =>
    refine (lifts_popArray h).bind ?_
    rintro ref _ ⟨rfl, href⟩
    refine .get ?_
    rw [(htaken 1).agrees.read_eq ref href]
    exact lifts_pushAll (htaken 1).there _
  | itemGet =>
    refine (lifts_popArrayIndex h).bind ?_
    rintro ⟨ref, index⟩ _ ⟨rfl, href, hindex⟩
    refine (lifts_numberOf (htaken 2) hindex).bind ?_
    rintro x _ rfl
    refine .get ?_
    rw [(htaken 2).agrees.read_eq ref href]
    exact (lifts_push (htaken 2).there _).bind fun _ after hafter => hpush hafter _
  | itemSet =>
    refine (lifts_popArrayIndexValue h).bind ?_
    rintro ⟨ref, index, v⟩ _ ⟨rfl, href, hindex⟩
    refine (lifts_indexInto (htaken 3) hindex).bind ?_
    rintro x _ rfl
    exact (lifts_modifyStorage href (htaken 3).there _).bind fun _ after hafter => hpush hafter _
  | itemDelete =>
    refine (lifts_popArrayIndex h).bind ?_
    rintro ⟨ref, index⟩ _ ⟨rfl, href, hindex⟩
    refine (lifts_indexInto (htaken 2) hindex).bind ?_
    rintro x _ rfl
    exact (lifts_modifyStorage href (htaken 2).there _).bind fun _ after hafter => hpush hafter _
  | call => exact .error
  | map => exact .error
  | _ => exact .ok trivial

theorem lifts_dispatch (program : Program) (start : Nat) {first : Char} (tail : List Char)
    (h : store.Unaliased base) (honly : store.frames.current = base → store.frames.depth = 1)
    (hlooks : store.looksBelow (Instruction.ofChar first) = false) :
    Lifts base under (dispatch program limits start first tail store)
      (dispatch program (limits.lifted under.size) start first tail (store.lifted base under))
      fun _ _ => True := by
  have hpushed (v : Value) (next : Nat) :
      Lifts base under ((do push limits v; return next : Action Nat) store)
        ((do push (limits.lifted under.size) v; return next : Action Nat) (store.lifted base under))
        fun _ _ => True :=
    (lifts_push h.there v).bind fun _ _ _ => .ok trivial
  unfold dispatch
  dsimp only
  cases hI : Instruction.ofChar first with
  | digits => exact hpushed _ _
  | word => exact hpushed _ _
  | character => exact (lifts_literal _).bind fun c after hafter => hafter ▸ hpushed _ _
  | text => exact (lifts_literal _).bind fun read after hafter => hafter ▸ hpushed _ _
  | emit => exact (lifts_literal _).bind fun read after _ => .ok trivial
  | paren => exact (lifts_literal _).bind fun n after hafter => hafter ▸ hpushed _ _
  | strayParen => exact .error
  | loopHead =>
    refine (lifts_popOne h).bind fun condition after _ => ?_
    exact .ite (fun _ => .ok trivial) fun _ => .lift fun _ _ => trivial
  | loopTail =>
    refine (lifts_popOne h).bind fun condition after _ => ?_
    exact .ite (fun _ => .lift fun _ _ => trivial) fun _ => .ok trivial
  | leave => exact .lift fun _ _ => trivial
  | _ =>
    rw [hI] at hlooks
    exact (lifts_perform first h honly hlooks).bind fun _ _ _ => .ok trivial

end Unit

end GlyphStack
