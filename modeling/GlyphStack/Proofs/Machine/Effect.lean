import GlyphStack.Proofs.Machine.Ends
import GlyphStack.Proofs.Machine.Reachable
import GlyphStack.Proofs.Store.Effect
import GlyphStack.Proofs.Store.Operands

/-!
Every unit has one of the effects of its instruction. The actions that instructions are put together
from come first, each from the stores on which instructions use it: operands come off the store that
the unit starts on, and what is pushed was held by that store or is new. Then `perform` by cases on
the instruction, `dispatch`, and a step of a machine. A fault on the way is never one of the
machine's own checks, and it brings the host down only where an array that is changed is its own
index.
-/

namespace GlyphStack

open Store

/-- A fault of a unit leaves one of the effects of its instruction. It is answered, unless the unit
is to change an array that is its own index. -/
def Effected (limits : Limits) (base : Store) (instruction : Instruction) (fault : Fault)
    (after : Store) : Prop :=
  (fault.Answered ∨ fault = .crash ∧ base.IndexesItself instruction) ∧
    Effect limits base instruction after

section Unit

variable {limits : Limits} {base store : Store} {instruction : Instruction}
  {fails : Fault → Store → Prop}

theorem Store.Worked.effected (h : Worked limits base instruction store) {fault : Fault}
    (hfault : fault.Answered) : Effected limits base instruction fault store :=
  ⟨.inl hfault, .worked h⟩

theorem Store.Worked.crashed (h : Worked limits base instruction store)
    (hself : base.IndexesItself instruction) : Effected limits base instruction .crash store :=
  ⟨.inr ⟨rfl, hself⟩, .worked h⟩

/-! ## 1. The current stack -/

theorem ends_push {v : Value} (h : Worked limits base instruction store)
    (hv : base.Offers store v) :
    Ends (push limits v store) (fun _ => Worked limits base instruction)
      (Effected limits base instruction) := by
  rcases Nat.lt_or_ge store.stack.size limits.stackSize with hroom | hfull
  · rw [push_of_lt v hroom]
    exact .push h hv hroom
  · rw [push_of_le v hfull]
    exact h.effected trivial

theorem ends_pushAll {vs : Array Value} (h : Worked limits base instruction store)
    (hvs : ∀ v ∈ vs, base.Holds v) :
    Ends (pushAll limits vs store) (fun _ => Worked limits base instruction)
      (Effected limits base instruction) :=
  .get (.ite (fun hroom => .append h hvs hroom) fun _ => .throw (h.effected trivial))

/-- Operands come off the stack that the unit starts on. If they are refused it stays as it is. -/
theorem ends_pop {n : Nat} {operation : String} {types : Vector Expected n}
    (hrefused : ∀ fault, fault.Answered → fails fault base) :
    Ends (pop operation types base)
      (fun operands after => after = base.taking n ∧
        (∃ below, base.stack = below ++ operands.toArray) ∧
          ∀ i (hi : i < n), types[i].accepts operands[i] = true)
      fails := by
  cases hpop : operandsOf base.heap operation types base.stack with
  | ok operands =>
    obtain ⟨hstack, haccepts⟩ := of_operandsOf hpop
    rw [pop_of_ok hpop]
    exact ⟨rfl, ⟨_, hstack⟩, haccepts⟩
  | error fault =>
    rw [pop_of_error hpop]
    exact hrefused fault (answered_of_operandsOf hpop)

theorem ends_popOne {operation : String} (hrefused : ∀ fault, fault.Answered → fails fault base) :
    Ends (popOne operation base)
      (fun v after => after = base.taking 1 ∧ ∃ below : Array Value, base.stack = below.push v)
      fails := by
  refine (ends_pop hrefused).bind fun operands after ⟨hafter, ⟨below, hstack⟩, _⟩ =>
    .pure ⟨hafter, below, ?_⟩
  have hone : operands.toArray = #[operands[0]] := by grind
  rw [hstack, hone, ← Array.push_eq_append]

theorem ends_popTwo {operation : String} (hrefused : ∀ fault, fault.Answered → fails fault base) :
    Ends (popTwo operation base)
      (fun (a, b) after => after = base.taking 2 ∧
        ∃ below : Array Value, base.stack = below ++ #[a, b])
      fails := by
  refine (ends_pop hrefused).bind fun operands after ⟨hafter, ⟨below, hstack⟩, _⟩ => ?_
  have htwo : operands.toArray = #[operands[0], operands[1]] := by grind
  exact .pure ⟨hafter, below, htwo ▸ hstack⟩

theorem ends_popArray {operation : String}
    (hrefused : ∀ fault, fault.Answered → fails fault base) :
    Ends (popArray operation base)
      (fun ref after => after = base.taking 1 ∧
        ∃ below : Array Value, base.stack = below.push (.array ref))
      fails := by
  refine (ends_pop hrefused).bind fun operands after ⟨hafter, ⟨below, hstack⟩, haccepts⟩ => ?_
  obtain ⟨ref, harray⟩ := exists_of_accepts_array (haccepts 0 (by decide))
  have hone : operands.toArray = #[operands[0]] := by grind
  rw [harray] at hone ⊢
  refine .pure ⟨hafter, below, ?_⟩
  rw [hstack, hone, ← Array.push_eq_append]

theorem ends_popArrayIndex {operation : String}
    (hrefused : ∀ fault, fault.Answered → fails fault base) :
    Ends (popArrayIndex operation base)
      (fun (ref, index) after => after = base.taking 2 ∧
        ∃ below : Array Value, base.stack = below ++ #[.array ref, index])
      fails := by
  refine (ends_pop hrefused).bind fun operands after ⟨hafter, ⟨below, hstack⟩, haccepts⟩ => ?_
  obtain ⟨ref, harray⟩ := exists_of_accepts_array (haccepts 0 (by decide))
  have htwo : operands.toArray = #[operands[0], operands[1]] := by grind
  rw [harray] at htwo ⊢
  exact .pure ⟨hafter, below, htwo ▸ hstack⟩

theorem ends_popArrayIndexValue {operation : String}
    (hrefused : ∀ fault, fault.Answered → fails fault base) :
    Ends (popArrayIndexValue operation base)
      (fun (ref, index, v) after => after = base.taking 3 ∧
        ∃ below : Array Value, base.stack = below ++ #[.array ref, index, v])
      fails := by
  refine (ends_pop hrefused).bind fun operands after ⟨hafter, ⟨below, hstack⟩, haccepts⟩ => ?_
  obtain ⟨ref, harray⟩ := exists_of_accepts_array (haccepts 0 (by decide))
  have hthree : operands.toArray = #[operands[0], operands[1], operands[2]] := by grind
  rw [harray] at hthree ⊢
  exact .pure ⟨hafter, below, hthree ▸ hstack⟩

/-- An index into a storage leaves the store as it is, and it fails if it is the array itself. -/
theorem ends_indexInto {ref : Ref} {index : Value}
    (hcrash : index = .array ref → fails .crash store) :
    Ends (indexInto ref index store) (fun _ after => after = store) fails := by
  by_cases hself : index = .array ref
  · have hfails := hcrash hself
    subst hself
    rw [indexInto_self]
    exact .throw hfails
  · rw [indexInto_of_ne hself]
    exact .pure rfl

/-- What can be read in an array after the operands came off was held before, if the array was. -/
theorem Store.holds_of_taking {n : Nat} {ref : Ref} {v : Value} (hreach : base.Reaches ref)
    (hv : v ∈ (base.taking n).heap.read ref) : base.Holds v := by
  rcases Heap.mem_read_update hv with hv | ⟨rfl, hleft⟩
  · exact .item hreach hv
  · exact .item hreach (mem_of_mem_shrink hleft)

theorem Store.holds_of_mem_stack_taking {n : Nat} {v : Value} (hv : v ∈ (base.taking n).stack) :
    base.Holds v :=
  holds_of_taking (.frame base.frames.current_mem_toList (.self _)) hv

/-! ## 2. New arrays -/

/-- The sum of two operands is no array, or a new one with items that were held. -/
theorem ends_sumOf {n : Nat} {a b : Value} (ha : base.Holds a) (hb : base.Holds b) :
    Ends (sumOf limits a b (base.taking n))
      (fun v after => Worked limits base instruction after ∧ base.Offers after v)
      (Effected limits base instruction) := by
  have hunchanged {v : Value} (hv : v.kind ≠ .array) :
      Worked limits base instruction (base.taking n) ∧ base.Offers (base.taking n) v :=
    ⟨.take .refl n, .held (.plain hv)⟩
  have hjoined {items : Array Value} (hitems : ∀ v ∈ items, base.Holds v) :
      Worked limits base instruction ((base.taking n).adding items) ∧
        base.Offers ((base.taking n).adding items) (.array ⟨(base.taking n).heap.size⟩) :=
    ⟨.add (.take .refl n) hitems, .new (by simp [taking]) (by simp [adding])⟩
  have hread {ref : Ref} (href : base.Holds (.array ref)) (v : Value)
      (hv : v ∈ (base.taking n).heap.read ref) : base.Holds v :=
    holds_of_taking (reaches_of_holds href) hv
  unfold sumOf Heap.add
  dsimp only
  split
  · exact hunchanged (by simp [Value.kind])
  · split
    · refine hjoined fun v hv => ?_
      rcases Array.mem_append.mp hv with hv | hv
      · exact hread ha v hv
      · exact hread hb v hv
    · refine hjoined fun v hv => ?_
      rcases Array.mem_push.mp hv with hv | rfl
      · exact hread ha v hv
      · exact hb
    · refine hjoined fun v hv => ?_
      rcases Array.mem_append.mp hv with hv | hv
      · rw [Array.mem_singleton.mp hv]
        exact ha
      · exact hread hb v hv
    · exact hunchanged (by simp [Value.kind])

/-- As many values as there are come off the current stack as a new array. -/
theorem gather_of_le {operation : String} {count : Nat} (h : count ≤ store.stack.size) :
    gather operation count store = .ok (.array ⟨store.heap.size⟩)
      ((store.adding (store.stack.extract (store.stack.size - count))).taking count) := by
  show (ite (store.stack.size < count) (throw _ : Action Value) _) store = _
  rw [if_neg (Nat.not_lt.mpr h)]
  rfl

/-- More values than there are leave everything as it was. -/
theorem gather_of_lt {operation : String} {count : Nat} (h : store.stack.size < count) :
    gather operation count store = .error (.arity operation count store.stack.size) store := by
  show (ite (store.stack.size < count) (throw _ : Action Value) _) store = _
  rw [if_pos h]
  rfl

/-- Gathered values make a new array. -/
theorem ends_gather {n count : Nat} {operation : String} :
    Ends (gather operation count (base.taking n))
      (fun v after => Worked limits base instruction after ∧ base.Offers after v)
      (Effected limits base instruction) := by
  have htaken : Worked limits base instruction (base.taking n) := .take .refl n
  rcases Nat.lt_or_ge (base.taking n).stack.size count with hfew | henough
  · rw [gather_of_lt hfew]
    exact htaken.effected trivial
  · rw [gather_of_le henough]
    let items := (base.taking n).stack.extract ((base.taking n).stack.size - count)
    have hitems : ∀ v ∈ items, base.Holds v := fun v hv =>
      holds_of_mem_stack_taking (mem_of_mem_extract hv)
    have hadded : (base.taking n).heap.size < (((base.taking n).adding items).taking count).heap.size :=
      by simp [adding, taking]
    exact ⟨(htaken.add hitems).take count, .new htaken.size_le hadded⟩

/-! ## 3. The open stacks -/

/-- Below the limit a new empty stack is opened, and otherwise nothing is touched. -/
theorem openFrame_eq (limits : Limits) (base : Store) :
    openFrame limits base =
      if base.frames.depth < limits.frameDepth then
        .ok () { base.adding #[] with frames := base.frames.openOne ⟨base.heap.size⟩ }
      else .error (.frameOverflow limits.frameDepth) base := by
  show (if base.frames.depth < limits.frameDepth then (do openArray limits (← alloc #[]))
    else throw (.frameOverflow limits.frameDepth) : Action Unit) base = _
  by_cases hdepth : base.frames.depth < limits.frameDepth
  · rw [if_pos hdepth, if_pos hdepth]
    show openArray limits _ (base.adding #[]) = _
    unfold openArray
    exact if_pos hdepth
  · rw [if_neg hdepth, if_neg hdepth]
    rfl

/-- A stack that is not the only one is closed and goes as an array onto the one below it. -/
theorem closeFrame_of_closeOne? {outer : Frames} (h : base.frames.closeOne? = some outer) :
    closeFrame limits base =
      push limits (.array base.frames.current) { base with frames := outer } := by
  refine Action.bind_of_ok ?_
  unfold dropFrame
  simp only [h]

/-- The current stack is closed, and what it was is pushed onto the one that becomes current. -/
theorem closeFrame_eq (limits : Limits) (base : Store) :
    ∃ store, base.Drops store ∧
      closeFrame limits base = push limits (.array base.frames.current) store := by
  cases hclose : base.frames.closeOne? with
  | some outer => exact ⟨_, .inner hclose, closeFrame_of_closeOne? hclose⟩
  | none =>
    refine ⟨_, .only hclose, Action.bind_of_ok ?_⟩
    unfold dropFrame
    simp only [hclose]
    rfl

/-! ## 4. Instructions -/

/-- What a variable has, or an item of an array, was held; and where there is none, nothing is an
array. -/
theorem Store.holds_getD {found : Option Value} (h : ∀ v, found = some v → base.Holds v) :
    base.Holds (found.getD .absent) := by
  cases found with
  | none => exact .plain (by simp [Value.kind])
  | some v => exact h v rfl

theorem Store.Worked.ends_effect {result : EStateM.Result Fault Store Unit}
    (h : Ends result (fun _ => Worked limits base instruction) (Effected limits base instruction)) :
    Ends result (fun _ => Effect limits base instruction) (Effected limits base instruction) :=
  h.imp fun _ _ => .worked

/-- Every instruction has one of its effects. -/
theorem ends_perform (limits : Limits) (base : Store) (first : Char) (instruction : Instruction) :
    Ends (perform limits first instruction base) (fun _ => Effect limits base instruction)
      (Effected limits base instruction) := by
  have hbase : Worked limits base instruction base := .refl
  have hrefused (fault : Fault) (hfault : fault.Answered) :
      Effected limits base instruction fault base := hbase.effected hfault
  have htaken (n : Nat) : Worked limits base instruction (base.taking n) := .take .refl n
  have hnumber {store : Store} (x : Float) : base.Offers store (.number x) :=
    .held (.plain (by simp [Value.kind]))
  cases instruction with
  | add =>
    refine Worked.ends_effect ((ends_popTwo hrefused).bind ?_)
    rintro ⟨a, b⟩ _ ⟨rfl, below, hstack⟩
    have ha : base.Holds a := holds_of_mem_stack (by simp [hstack])
    have hb : base.Holds b := holds_of_mem_stack (by simp [hstack])
    refine (ends_sumOf ha hb).bind ?_
    rintro v after ⟨hafter, hv⟩
    exact ends_push hafter hv
  | arithmetic operator =>
    refine Worked.ends_effect ((ends_popTwo hrefused).bind ?_)
    rintro ⟨a, b⟩ _ ⟨rfl, -⟩
    exact .get (ends_push (htaken 2) (hnumber _))
  | compare =>
    refine Worked.ends_effect ((ends_popTwo hrefused).bind ?_)
    rintro ⟨a, b⟩ _ ⟨rfl, -⟩
    refine .get (Ends.bind (.lift (fun _ _ => htaken 2) fun fault hfault => ?_) ?_)
    · exact (htaken 2).effected (Heap.answered_of_compareWithin hfault)
    · rintro ordering after hafter
      exact ends_push hafter (hnumber _)
  | not =>
    refine Worked.ends_effect ((ends_popOne hrefused).bind ?_)
    rintro v _ ⟨rfl, -⟩
    exact ends_push (htaken 1) (hnumber _)
  | zero => exact Worked.ends_effect (ends_push hbase (hnumber _))
  | openFrame =>
    show Ends (openFrame limits base) _ _
    rw [openFrame_eq]
    split
    · rename_i hdepth
      exact Effect.openedNew hdepth
    · exact hbase.effected trivial
  | openArray =>
    refine (ends_popArray hrefused).bind ?_
    rintro ref _ ⟨rfl, below, harray⟩
    unfold openArray
    dsimp only
    split
    · rename_i hdepth
      exact Effect.openedArray harray hdepth
    · exact (htaken 1).effected trivial
  | closeFrame =>
    show Ends (closeFrame limits base) _ _
    obtain ⟨store, hdrop, hclose⟩ := closeFrame_eq limits base
    rw [hclose]
    rcases Nat.lt_or_ge store.stack.size limits.stackSize with hroom | hfull
    · rw [push_of_lt _ hroom]
      exact Effect.closedInto hdrop hroom
    · rw [push_of_le _ hfull]
      exact ⟨.inl trivial, .closed hdrop⟩
  | print => exact Effect.sent hbase _
  | dup =>
    have htop : top? base = .ok base.stack.back? base := rfl
    refine Worked.ends_effect (.reads htop ?_)
    cases hback : base.stack.back? with
    | none => exact hbase
    | some v =>
      have hv : v ∈ base.stack := Array.mem_of_back? hback
      exact ends_push hbase (.held (holds_of_mem_stack hv))
  | discard =>
    have hpop (items : Array Value) : items.shrink (items.size - 1) = items.pop := by
      rw [Array.shrink_eq_take]
      simp
    have hworked : Worked limits base .discard (base.mapStack (·.pop)) := by
      simpa only [taking, hpop] using htaken 1
    exact Effect.worked hworked
  | store =>
    refine (ends_popOne hrefused).bind ?_
    rintro name _ ⟨rfl, below, hname⟩
    exact Effect.named hname
  | load =>
    refine Worked.ends_effect ((ends_popOne hrefused).bind ?_)
    rintro name _ ⟨rfl, -⟩
    refine .reads rfl (.reads rfl (ends_push (htaken 1) (.held (holds_getD fun v hv => ?_))))
    have hentry : (_, v) ∈ base.bindings.entries := Dictionary.mem_of_get? hv
    exact .binding hentry
  | gather =>
    refine Worked.ends_effect ((ends_popOne hrefused).bind ?_)
    rintro count _ ⟨rfl, -⟩
    refine .reads rfl (ends_gather.bind ?_)
    rintro v after ⟨hafter, hv⟩
    exact ends_push hafter hv
  | spread =>
    refine Worked.ends_effect ((ends_popArray hrefused).bind ?_)
    rintro ref _ ⟨rfl, below, harray⟩
    have href := reaches_of_holds (holds_of_stack_eq harray)
    exact .get (ends_pushAll (htaken 1) fun v hv => holds_of_taking href hv)
  | itemGet =>
    refine Worked.ends_effect ((ends_popArrayIndex hrefused).bind ?_)
    rintro ⟨ref, index⟩ _ ⟨rfl, below, hstack⟩
    have harray : base.Holds (.array ref) := holds_of_mem_stack (by simp [hstack])
    refine .reads rfl (.get ((ends_push (htaken 2) (.held harray)).bind ?_))
    rintro _ after hafter
    refine ends_push hafter (.held (holds_getD fun v hv => ?_))
    obtain ⟨i, -, hi⟩ := Option.bind_eq_some_iff.mp hv
    exact holds_of_taking (reaches_of_holds harray) (Array.mem_of_getElem? hi)
  | itemSet =>
    refine Worked.ends_effect ((ends_popArrayIndexValue hrefused).bind ?_)
    rintro ⟨ref, index, v⟩ _ ⟨rfl, below, hstack⟩
    have harray : base.Holds (.array ref) := holds_of_mem_stack (by simp [hstack])
    have hcrash (hself : index = .array ref) :
        Effected limits base .itemSet .crash (base.taking 3) :=
      (htaken 3).crashed (.set (hself ▸ hstack))
    refine (ends_indexInto hcrash).bind ?_
    rintro number _ rfl
    exact ends_push ((htaken 3).set hstack _) (.held harray)
  | itemDelete =>
    refine Worked.ends_effect ((ends_popArrayIndex hrefused).bind ?_)
    rintro ⟨ref, index⟩ _ ⟨rfl, below, hstack⟩
    have harray : base.Holds (.array ref) := holds_of_mem_stack (by simp [hstack])
    have hcrash (hself : index = .array ref) :
        Effected limits base .itemDelete .crash (base.taking 2) :=
      (htaken 2).crashed (.delete (hself ▸ hstack))
    refine (ends_indexInto hcrash).bind ?_
    rintro number _ rfl
    exact ends_push ((htaken 2).delete hstack _) (.held harray)
  | call => exact hbase.effected trivial
  | map => exact hbase.effected trivial
  | _ => exact Effect.worked hbase

end Unit

/-! ## 5. Units -/

theorem Program.answered_of_exitFrom {text : List Char} {start depth : Nat} {fault : Fault}
    (h : exitFrom text start depth = .error fault) : fault.Answered := by
  unfold exitFrom at h
  split_ifs at h
  dsimp only at h
  split at h <;> cases h <;> exact trivial

theorem Program.LoopTable.answered_of_bodyStart {loops : LoopTable} {position : Nat}
    {fault : Fault} (h : loops.bodyStart position = .error fault) : fault.Answered := by
  unfold bodyStart at h
  split at h
  · split_ifs at h
    · cases h
      exact trivial
    · cases hlookup : loops.bodies.lookup position with
      | none =>
        rw [hlookup] at h
        cases h
        exact trivial
      | some start =>
        rw [hlookup] at h
        cases h
  · cases h
  · cases h
    exact trivial

/-- Every unit has one of the effects of its instruction. -/
theorem ends_dispatch (program : Program) (limits : Limits) (start : Nat) (first : Char)
    (tail : List Char) (base : Store) :
    Ends (dispatch program limits start first tail base)
      (fun _ => Effect limits base (Instruction.ofChar first))
      (Effected limits base (Instruction.ofChar first)) := by
  have hworked {store : Store} {instruction : Instruction}
      (h : Worked limits base instruction store) : Effect limits base instruction store := .worked h
  have hmoved {result : Except Fault Nat} {store : Store} {instruction : Instruction}
      (h : Worked limits base instruction store)
      (herror : ∀ fault, result = .error fault → fault.Answered) :
      Ends ((liftExcept result : Action Nat) store) (fun _ => Effect limits base instruction)
        (Effected limits base instruction) :=
    .lift (fun _ _ => .worked h) fun fault hfault => h.effected (herror fault hfault)
  have hrefused {instruction : Instruction} (fault : Fault) (hfault : fault.Answered) :
      Effected limits base instruction fault base := Worked.effected .refl hfault
  by_cases hcontrol : Program.IsControl first
  · rcases hcontrol with rfl | rfl | rfl
    · rw [dispatch_loopHead]
      refine (ends_popOne hrefused).bind ?_
      rintro condition _ ⟨rfl, -⟩
      exact .ite (fun _ => hworked (.take .refl 1)) fun _ =>
        hmoved (.take .refl 1) fun _ => Program.answered_of_exitFrom
    · rw [dispatch_loopTail]
      refine (ends_popOne hrefused).bind ?_
      rintro condition _ ⟨rfl, -⟩
      exact .ite (fun _ => hmoved (.take .refl 1) fun _ => Program.LoopTable.answered_of_bodyStart)
        fun _ => hworked (.take .refl 1)
    · rw [dispatch_leave]
      exact hmoved .refl fun _ => Program.answered_of_exitFrom
  · cases hread : Program.unitTail first tail with
    | error fault =>
      rw [dispatch_misread hread]
      exact Worked.effected .refl trivial
    | ok n =>
      obtain ⟨act, hplain, hact⟩ : ∃ act, PlainAction limits start first act ∧
          dispatch program limits start first tail = (do act; return start + 1 + n) :=
        dispatch_plain hcontrol hread
      have hends : Ends (act base) (fun _ => Effect limits base (Instruction.ofChar first))
          (Effected limits base (Instruction.ofChar first)) := by
        cases hplain with
        | push hplain => exact Worked.ends_effect (ends_push .refl (.held (.plain hplain)))
        | emit text => exact Effect.sent .refl text
        | strayParen => exact Worked.effected .refl trivial
        | perform => exact ends_perform limits base first _
      rw [hact]
      exact hends.bind fun _ _ heffect => .pure heffect

/-! ## 6. Steps -/

namespace Machine

/-- The instruction of the unit that the next step carries out, if there is one. -/
def unit? (machine : Machine) : Option Instruction :=
  if machine.halted then none
  else (machine.program.rest machine.position).head?.map Instruction.ofChar

theorem Carries.unit? {machine : Machine} {outcome : EStateM.Result Fault Store Nat}
    (h : machine.Carries outcome) : ∃ first tail,
      machine.program.rest machine.position = first :: tail ∧
      machine.unit? = some (Instruction.ofChar first) ∧
      GlyphStack.dispatch machine.program machine.limits machine.position first tail
        machine.store = outcome := by
  obtain ⟨first, tail, hrest, hdispatch⟩ := h.dispatch
  refine ⟨first, tail, hrest, ?_, hdispatch⟩
  rw [Machine.unit?, h.running, hrest]
  rfl

/-- A step with nothing to do leaves the store as it is, and any other has one of the effects of its
unit, whether the unit fails or not. Its failure is answered, unless the unit is to change an array
that is its own index. -/
theorem step_effect (machine : Machine) :
    (machine.unit? = none ∧ machine.step.2.store = machine.store ∧ machine.step.1 = .done) ∨
    ∃ instruction, machine.unit? = some instruction ∧
      Effect machine.limits machine.store instruction machine.step.2.store ∧
      (machine.step.1 = .continued ∨
        ∃ failure, machine.step.1 = .failed failure ∧ (failure.fault.Answered ∨
          failure.fault = .crash ∧ machine.store.IndexesItself instruction)) := by
  rcases step_cases machine with ⟨hhalted, hstep⟩ | ⟨hrunning, hrest, hstep⟩ |
    ⟨next, store, hcarries, hstep⟩ | ⟨fault, store, hcarries, hstep⟩
  · refine .inl ⟨?_, by rw [hstep], by rw [hstep]⟩
    rw [unit?, hhalted, if_pos rfl]
  · refine .inl ⟨?_, by rw [hstep], by rw [hstep]⟩
    rw [unit?, hrest]
    simp
  · obtain ⟨first, tail, -, hunit, hdispatch⟩ := hcarries.unit?
    rw [hstep]
    have hends := ends_dispatch machine.program machine.limits machine.position first tail
      machine.store
    exact .inr ⟨_, hunit, hends.of_ok hdispatch, .inl rfl⟩
  · obtain ⟨first, tail, -, hunit, hdispatch⟩ := hcarries.unit?
    rw [hstep]
    have hends := ends_dispatch machine.program machine.limits machine.position first tail
      machine.store
    obtain ⟨hfault, heffect⟩ := hends.of_error hdispatch
    exact .inr ⟨_, hunit, heffect, .inr ⟨_, rfl, hfault⟩⟩

/-- The fault of a step is answered, unless the unit is to change an array that is its own index. -/
theorem fault_of_step {machine : Machine} {failure : Failure}
    (h : machine.step.1 = .failed failure) :
    ∃ instruction, machine.unit? = some instruction ∧ (failure.fault.Answered ∨
      failure.fault = .crash ∧ machine.store.IndexesItself instruction) := by
  rcases step_effect machine with ⟨-, -, hdone⟩ | ⟨instruction, hunit, -, hcontinued | hfailed⟩
  · rw [hdone] at h
    contradiction
  · rw [hcontinued] at h
    contradiction
  · obtain ⟨other, hother, hfault⟩ := hfailed
    rw [hother] at h
    cases h
    exact ⟨instruction, hunit, hfault⟩

/-- A step has an effect in any case: it may be that nothing is done. -/
theorem effect_step (machine : Machine) :
    ∃ instruction, Effect machine.limits machine.store instruction machine.step.2.store := by
  rcases step_effect machine with ⟨-, hstore, -⟩ | ⟨instruction, -, heffect, -⟩
  · rw [hstore]
    exact ⟨.nop, .worked .refl⟩
  · exact ⟨instruction, heffect⟩

/-- What every effect keeps holds of every machine that is reached, if it holds at the start. -/
theorem Reachable.invariant {motive : Store → Prop} {start machine : Machine}
    (h : Reachable start machine) (hstart : motive start.store)
    (hstep : ∀ {base after : Store} {instruction : Instruction},
      Effect start.limits base instruction after → motive base → motive after) :
    motive machine.store := by
  induction h with
  | refl => exact hstart
  | @step machine hreach ih =>
    obtain ⟨instruction, heffect⟩ := machine.effect_step
    rw [hreach.program_limits.2] at heffect
    exact hstep heffect ih
  | halt _ ih => exact ih

end Machine

end GlyphStack
