import GlyphStack.Proofs.Machine.Stepping

/-!
What a unit leaves when it fails. It may have taken operands off the current stack by then, and `]`
has closed that stack; beyond this everything is as it was (`Store.FailsTo`). The reason is the order
in which instructions act: a text is sent out, a variable is stored and a stack is opened last of
all, so nothing can fail afterwards. Only `;` and `$` go on with a push after they changed the items
of an array, and only `,` pushes twice. They took as many operands off before as they push then, so
where the stack kept its limit there is room for that, also if the array is the current stack itself.

`Store.Room` counts how many values may still be pushed. Sections 1 to 3 follow it through the
actions, section 4 goes through the instructions, and section 5 is about machines.
-/

namespace GlyphStack

open Store

/-! ## 1. Room on the current stack -/

namespace Store

/-- So many values can be pushed onto the current stack. -/
def Room (limits : Limits) (store : Store) (n : Nat) : Prop :=
  store.stack.size + n ≤ limits.stackSize

section Room

variable {limits : Limits} {base store : Store} {n : Nat}

/-- After a change the current stack holds what the change makes of it, or it has no storage and
holds nothing. -/
theorem stack_mapStack_cases (store : Store) (change : Array Value → Array Value) :
    (store.mapStack change).stack = change store.stack ∨ (store.mapStack change).stack = #[] := by
  rcases Nat.lt_or_ge store.frames.current.index store.heap.size with hlt | hge
  · exact .inl (stack_mapStack change hlt)
  · exact .inr (Heap.read_of_le ((size_heap_mapStack store change).symm ▸ hge))

theorem size_stack_mapStack_le (store : Store) (change : Array Value → Array Value) :
    (store.mapStack change).stack.size ≤ (change store.stack).size := by
  rcases stack_mapStack_cases store change with h | h
  · exact Nat.le_of_eq (congrArg Array.size h)
  · simp [h]

theorem stack_adding (h : store.frames.current.index < store.heap.size) (items : Array Value) :
    (store.adding items).stack = store.stack :=
  Heap.read_alloc_of_lt items h

/-- Operands that are taken off a stack within the limit leave room for as many values. -/
theorem room_taking (hfits : base.stack.size ≤ limits.stackSize) (hn : n ≤ base.stack.size) :
    (base.taking n).Room limits n := by
  have hsize := size_stack_mapStack_le base fun items => items.shrink (items.size - n)
  rw [Array.size_shrink] at hsize
  show (base.mapStack _).stack.size + n ≤ limits.stackSize
  omega

/-- A change that adds one item at most takes up at most one place, whichever array it changes. -/
theorem Room.changing (h : store.Room limits (n + 1)) (ref : Ref)
    {change : Array Value → Array Value} (hchange : ∀ items, (change items).size ≤ items.size + 1) :
    (store.changing ref change).Room limits n := by
  have hsize : (store.changing ref change).stack.size ≤ store.stack.size + 1 := by
    refine size_read_changing_le (Nat.le_succ _) fun hcurrent => ?_
    have hstack : store.stack = store.heap.read ref := congrArg store.heap.read hcurrent
    rw [hstack]
    exact hchange _
  unfold Room at h ⊢
  omega

/-- Where there is room a push does not fail, and takes up one place. -/
theorem Room.ends_push {fails : Fault → Store → Prop} (h : store.Room limits (n + 1)) (v : Value) :
    Ends (push limits v store) (fun _ after => after.Room limits n) fails := by
  have hsize := size_stack_mapStack_le store (·.push v)
  rw [Array.size_push] at hsize
  unfold Room at h
  rw [push_of_lt v (by omega)]
  show (store.mapStack (·.push v)).stack.size + n ≤ limits.stackSize
  omega

end Room

/-! ## 2. What is left -/

/-- What a unit that fails can leave of the store it started on: all as it was, or without operands
that it took off; where the unit is `]`, the current stack is closed and nothing else is done. -/
inductive FailsTo (base : Store) : Instruction → Store → Prop where
  | untouched {instruction : Instruction} (h : instruction ≠ .closeFrame) :
      base.FailsTo instruction base
  | taken {instruction : Instruction} (h : instruction ≠ .closeFrame) (n : Nat) :
      base.FailsTo instruction (base.taking n)
  | closed {store : Store} (hdrop : base.Drops store) : base.FailsTo .closeFrame store

namespace FailsTo

variable {base after : Store} {instruction : Instruction}

theorem bindings_eq (h : base.FailsTo instruction after) : after.bindings = base.bindings := by
  cases h with
  | untouched => rfl
  | taken => rfl
  | closed hdrop => exact hdrop.bindings_eq

theorem output_eq (h : base.FailsTo instruction after) : after.output = base.output := by
  cases h with
  | untouched => rfl
  | taken => rfl
  | closed hdrop => cases hdrop <;> rfl

/-- The storage of the stack that was current keeps its lower values. -/
theorem read_current (h : base.FailsTo instruction after) :
    (after.heap.read base.frames.current).toList <+: base.stack.toList := by
  cases h with
  | untouched => exact List.prefix_rfl
  | taken _ n =>
    have hprefix : (base.taking n).stack.toList <+: base.stack.toList := by
      rcases stack_mapStack_cases base fun items => items.shrink (items.size - n) with h | h
      · rw [taking, h, Array.toList_shrink]
        exact List.take_prefix _ _
      · rw [taking, h]
        exact List.nil_prefix
    exact hprefix
  | closed hdrop =>
    rw [hdrop.read_eq]
    exact List.prefix_rfl

/-- All other storages read as they did. -/
theorem read_eq (h : base.FailsTo instruction after) {ref : Ref}
    (hother : ref ≠ base.frames.current) : after.heap.read ref = base.heap.read ref := by
  cases h with
  | untouched => rfl
  | taken => exact read_mapStack_of_ne _ hother
  | closed hdrop => exact hdrop.read_eq ref

theorem frames_eq (h : base.FailsTo instruction after) (hne : instruction ≠ .closeFrame) :
    after.frames = base.frames := by
  cases h with
  | untouched => rfl
  | taken => rfl
  | closed => contradiction

/-- A failing `]` has closed the current stack, and a stack that stands in for it is empty. -/
theorem closes (h : base.FailsTo .closeFrame after) :
    base.frames.closeOne? = some after.frames ∨
      base.frames.depth = 1 ∧ after.frames = .single ⟨base.heap.size⟩ ∧ after.stack = #[] := by
  cases h with
  | untouched h => contradiction
  | taken h => contradiction
  | closed hdrop =>
    cases hdrop with
    | inner hclose => exact .inl hclose
    | only hclose =>
      exact .inr ⟨Frames.closeOne?_eq_none_iff.mp hclose, rfl, read_adding_self base #[]⟩

end FailsTo

end Store

/-! ## 3. Actions -/

section Actions

variable {limits : Limits} {base store : Store} {n : Nat} {fails : Fault → Store → Prop}

/-- A push that finds no room leaves all as it was. -/
theorem ends_push_or (hfull : ∀ fault, fails fault store) (v : Value) :
    Ends (push limits v store) (fun _ _ => True) fails := by
  rcases Nat.lt_or_ge store.stack.size limits.stackSize with hroom | hle
  · rw [push_of_lt v hroom]
    exact True.intro
  · rw [push_of_le v hle]
    exact hfull _

/-- Adding two values takes up no place on the current stack. -/
theorem ends_sumOf_room (hroom : store.Room limits n)
    (hthere : store.frames.current.index < store.heap.size) (a b : Value) :
    Ends (sumOf limits a b store) (fun _ after => after.Room limits n) fails := by
  have hjoined (items : Array Value) : (store.adding items).Room limits n := by
    unfold Room
    rw [stack_adding hthere]
    exact hroom
  unfold sumOf Heap.add
  dsimp only
  split
  · exact hroom
  · split
    · exact hjoined _
    · exact hjoined _
    · exact hjoined _
    · exact hroom

/-- Gathering values takes up no place on the current stack, and if there are too few it leaves all
as it was. -/
theorem ends_gather_room (hroom : store.Room limits n)
    (hthere : store.frames.current.index < store.heap.size) (hfew : ∀ fault, fails fault store)
    (operation : String) (count : Nat) :
    Ends (gather operation count store) (fun _ after => after.Room limits n) fails := by
  refine .get (.ite (fun _ => .throw (hfew _)) fun _ => ?_)
  let items := store.stack.extract (store.stack.size - count)
  have hsize := size_stack_mapStack_le (store.adding items) fun stack =>
    stack.shrink (stack.size - count)
  rw [stack_adding hthere, Array.size_shrink] at hsize
  show ((store.adding items).mapStack _).stack.size + n ≤ limits.stackSize
  unfold Room at hroom
  omega

end Actions

/-! ## 4. Units -/

section Unit

variable {limits : Limits} {base : Store}

/-- An instruction that fails leaves operands taken off, or the current stack closed. -/
theorem failsTo_perform (hfits : base.stack.size ≤ limits.stackSize) (first : Char)
    (instruction : Instruction) :
    Ends (perform limits first instruction base) (fun _ _ => True)
      (fun _ => base.FailsTo instruction) := by
  by_cases hclose : instruction = .closeFrame
  · subst hclose
    obtain ⟨store, hdrop, heq⟩ := closeFrame_eq limits base
    show Ends (closeFrame limits base) _ _
    rw [heq]
    exact ends_push_or (fun _ => .closed hdrop) _
  have huntouched : base.FailsTo instruction base := .untouched hclose
  have hrefused (fault : Fault) (_ : fault.Answered) := huntouched
  have htaken (n : Nat) : base.FailsTo instruction (base.taking n) := .taken hclose n
  -- the operands that came off are what there is room for
  have hroom {below operands : Array Value} (hstack : base.stack = below ++ operands) (n : Nat)
      (hn : operands.size = n) : (base.taking n).Room limits n := by
    refine room_taking hfits ?_
    rw [hstack, Array.size_append]
    omega
  have hone {below : Array Value} {v : Value} (hstack : base.stack = below.push v) :
      base.stack = below ++ #[v] :=
    hstack.trans Array.push_eq_append
  have hthere {below operands : Array Value} (hstack : base.stack = below ++ operands)
      (hsome : 0 < operands.size) (n : Nat) :
      (base.taking n).frames.current.index < (base.taking n).heap.size := by
    simpa [taking] using current_lt_of_stack_eq hstack hsome
  cases instruction with
  | add =>
    refine (ends_popTwo hrefused).bind ?_
    rintro ⟨a, b⟩ _ ⟨rfl, below, hstack⟩
    refine (ends_sumOf_room (hroom hstack 2 rfl) (hthere hstack (by simp) 2) a b).bind ?_
    rintro v after hafter
    exact (hafter.ends_push v).drop
  | arithmetic operator =>
    refine (ends_popTwo hrefused).bind ?_
    rintro ⟨a, b⟩ _ ⟨rfl, below, hstack⟩
    exact .get ((hroom hstack 2 rfl).ends_push _).drop
  | compare =>
    refine (ends_popTwo hrefused).bind ?_
    rintro ⟨a, b⟩ _ ⟨rfl, below, hstack⟩
    have hlifted : Ends ((liftExcept ((base.taking 2).heap.compare limits.nesting a b) :
        Action (Option Ordering)) (base.taking 2)) (fun _ after => after.Room limits 2)
        (fun _ => base.FailsTo .compare) :=
      .lift (fun _ _ => hroom hstack 2 rfl) fun _ _ => htaken 2
    refine .get (hlifted.bind ?_)
    rintro ordering after hafter
    exact (hafter.ends_push _).drop
  | not =>
    refine (ends_popOne hrefused).bind ?_
    rintro v _ ⟨rfl, below, hstack⟩
    exact ((hroom (hone hstack) 1 rfl).ends_push _).drop
  | zero => exact ends_push_or (fun _ => huntouched) _
  | openFrame =>
    show Ends (openFrame limits base) _ _
    rw [openFrame_eq]
    split
    · exact True.intro
    · exact huntouched
  | openArray =>
    refine (ends_popArray hrefused).bind ?_
    rintro ref _ ⟨rfl, -⟩
    unfold openArray
    dsimp only
    split
    · exact True.intro
    · exact htaken 1
  | closeFrame => contradiction
  | print => exact True.intro
  | dup =>
    have htop : top? base = .ok base.stack.back? base := rfl
    refine .reads htop ?_
    cases base.stack.back? with
    | none => exact True.intro
    | some v => exact ends_push_or (fun _ => huntouched) v
  | discard => exact True.intro
  | store =>
    refine (ends_popOne hrefused).bind ?_
    rintro name _ ⟨rfl, -⟩
    exact True.intro
  | load =>
    refine (ends_popOne hrefused).bind ?_
    rintro name _ ⟨rfl, below, hstack⟩
    exact .reads rfl (.reads rfl ((hroom (hone hstack) 1 rfl).ends_push _).drop)
  | gather =>
    refine (ends_popOne hrefused).bind ?_
    rintro count _ ⟨rfl, below, hstack⟩
    have hcurrent := hthere (hone hstack) (by simp) 1
    have hgathered (count : Nat) : Ends (gather ">" count (base.taking 1))
        (fun _ after => after.Room limits 1) (fun _ => base.FailsTo .gather) :=
      ends_gather_room (hroom (hone hstack) 1 rfl) hcurrent (fun _ => htaken 1) ">" count
    refine .reads rfl ((hgathered _).bind ?_)
    rintro v after hafter
    exact (hafter.ends_push v).drop
  | spread =>
    refine (ends_popArray hrefused).bind ?_
    rintro ref _ ⟨rfl, -⟩
    exact .get (.get (.ite (fun _ => True.intro) fun _ => .throw (htaken 1)))
  | itemGet =>
    refine (ends_popArrayIndex hrefused).bind ?_
    rintro ⟨ref, index⟩ _ ⟨rfl, below, hstack⟩
    refine .reads rfl (.get (((hroom hstack 2 rfl).ends_push _).bind ?_))
    rintro _ after hafter
    exact (hafter.ends_push _).drop
  | itemSet =>
    refine (ends_popArrayIndexValue hrefused).bind ?_
    rintro ⟨ref, index, v⟩ _ ⟨rfl, below, hstack⟩
    have hchanged (n : Number.Truncated) :
        ((base.taking 3).changing ref (assignItem · n v)).Room limits 2 :=
      (hroom hstack 3 rfl).changing ref fun items => size_assignItem_le items n v
    refine (ends_indexInto fun _ => htaken 3).bind ?_
    rintro number _ rfl
    exact ((hchanged _).ends_push _).drop
  | itemDelete =>
    refine (ends_popArrayIndex hrefused).bind ?_
    rintro ⟨ref, index⟩ _ ⟨rfl, below, hstack⟩
    have hchanged (n : Number.Truncated) :
        ((base.taking 2).changing ref (removeItem · n)).Room limits 1 :=
      (hroom hstack 2 rfl).changing ref fun items => Nat.le_succ_of_le (size_removeItem_le items n)
    refine (ends_indexInto fun _ => htaken 2).bind ?_
    rintro number _ rfl
    exact ((hchanged _).ends_push _).drop
  | call => exact huntouched
  | map => exact huntouched
  | _ => exact True.intro

/-- So does every unit. -/
theorem failsTo_dispatch (hfits : base.stack.size ≤ limits.stackSize) (program : Program)
    (start : Nat) (first : Char) (tail : List Char) :
    Ends (dispatch program limits start first tail base) (fun _ _ => True)
      (fun _ => base.FailsTo (Instruction.ofChar first)) := by
  by_cases hclose : Instruction.ofChar first = .closeFrame
  · have hperform := failsTo_perform hfits first (Instruction.ofChar first)
    rw [hclose] at hperform
    simp only [dispatch, hclose]
    exact hperform.bind fun _ _ _ => True.intro
  have huntouched : base.FailsTo (Instruction.ofChar first) base := .untouched hclose
  have hrefused (fault : Fault) (_ : fault.Answered) := huntouched
  have htaken : base.FailsTo (Instruction.ofChar first) (base.taking 1) := .taken hclose 1
  have hmoved {result : Except Fault Nat} {store : Store}
      (h : base.FailsTo (Instruction.ofChar first) store) :
      Ends ((liftExcept result : Action Nat) store) (fun _ _ => True)
        (fun _ => base.FailsTo (Instruction.ofChar first)) :=
    .lift (fun _ _ => True.intro) fun _ _ => h
  by_cases hcontrol : Program.IsControl first
  · rcases hcontrol with rfl | rfl | rfl
    · rw [dispatch_loopHead]
      refine (ends_popOne hrefused).bind ?_
      rintro condition _ ⟨rfl, -⟩
      exact .ite (fun _ => True.intro) fun _ => hmoved htaken
    · rw [dispatch_loopTail]
      refine (ends_popOne hrefused).bind ?_
      rintro condition _ ⟨rfl, -⟩
      exact .ite (fun _ => hmoved htaken) fun _ => True.intro
    · rw [dispatch_leave]
      exact hmoved huntouched
  · cases hread : Program.unitTail first tail with
    | error fault =>
      rw [dispatch_misread hread]
      exact huntouched
    | ok n =>
      obtain ⟨act, hplain, hact⟩ : ∃ act, PlainAction limits start first act ∧
          dispatch program limits start first tail = (do act; return start + 1 + n) :=
        dispatch_plain hcontrol hread
      have hends : Ends (act base) (fun _ _ => True)
          (fun _ => base.FailsTo (Instruction.ofChar first)) := by
        cases hplain with
        | push => exact ends_push_or (fun _ => huntouched) _
        | emit text => exact True.intro
        | strayParen => exact huntouched
        | perform => exact failsTo_perform hfits first _
      rw [hact]
      exact hends.bind fun _ _ _ => True.intro

end Unit

namespace Machine

/-! ## 5. Machines -/

/-- How a machine stands after a step that failed. -/
structure StopsAt (machine after : Machine) (failure : Failure) : Prop where
  position : after.position = machine.position
  bindings : after.store.bindings = machine.store.bindings
  output : after.store.output = machine.store.output
  /-- The stack that was current may have lost values from its top. -/
  current : (after.store.heap.read machine.store.frames.current).toList <+:
    machine.store.stack.toList
  storages : ∀ ref, ref ≠ machine.store.frames.current →
    after.store.heap.read ref = machine.store.heap.read ref
  frames : machine.unit? ≠ some .closeFrame → after.store.frames = machine.store.frames
  /-- A failing `]` has closed the current stack; if it was the only one, a new empty one is open. -/
  closed : machine.unit? = some .closeFrame →
    machine.store.frames.closeOne? = some after.store.frames ∨
      machine.store.frames.depth = 1 ∧ after.store.frames = .single ⟨machine.store.heap.size⟩ ∧
        after.store.stack = #[]
  /-- The failure names one place, the start of the unit. -/
  trace : failure.trace = [machine.program.traceFrame machine.position]
  /-- Whatever is called later, it answers at once and changes nothing. -/
  idle : ∀ later, Reachable after later → later = after ∧ later.step = (.done, later) ∧
    (∀ fuel, later.run? fuel = some (.ok (), later)) ∧
    ∀ budget, later.runWithBudget budget = (.ok (), later)

/-- **What a failed step leaves.** If a unit fails on a machine whose current stack is within the
limit, the machine stays where it was, with its variables and what it sent out; of the storages only
the current stack can have changed, and that one has lost values from its top at most; the same
stacks are open, but for a `]` that closed one. The failure names the start of the unit and no other
place, and the machine does nothing from then on. -/
theorem stopsAt_of_failed {machine : Machine} {failure : Failure}
    (hfits : machine.store.stack.size ≤ machine.limits.stackSize)
    (hfailed : machine.step.1 = .failed failure) : machine.StopsAt machine.step.2 failure := by
  rcases step_cases machine with ⟨-, hstep⟩ | ⟨-, -, hstep⟩ | ⟨_, _, -, hstep⟩ |
    ⟨fault, store, hcarries, hstep⟩
  · simp [hstep] at hfailed
  · simp [hstep] at hfailed
  · simp [hstep] at hfailed
  · obtain ⟨first, tail, -, hunit, hdispatch⟩ := hcarries.unit?
    have hends := failsTo_dispatch hfits machine.program machine.position first tail
    have hleft : machine.store.FailsTo (Instruction.ofChar first) store := hends.of_error hdispatch
    rw [hstep] at hfailed ⊢
    cases hfailed
    have hhalted : { machine with store, halted := true }.halted = true := rfl
    exact {
      position := rfl
      bindings := hleft.bindings_eq
      output := hleft.output_eq
      current := hleft.read_current
      storages := fun ref hother => hleft.read_eq hother
      frames := fun hne => hleft.frames_eq fun h => hne (hunit.trans (congrArg some h))
      closed := fun hclose => by
        rw [hunit, Option.some.injEq] at hclose
        exact (hclose ▸ hleft).closes
      trace := rfl
      idle := fun later hreach => by
        obtain rfl := hreach.eq_of_halted hhalted
        exact ⟨rfl, idle_of_halted hhalted⟩ }

/-- An array that holds itself is opened and spread onto itself, for which there is no room: it has
lost the operand, and nothing else has happened. -/
theorem stopsAt_of_self_spread :
    let start := (onHeap .empty "[a b c]x=|x^<").withLimits { stackSize := 4 }
    let machine := start.stepped 12
    machine.store.stack.size = 4 ∧ machine.step.2.store.stack.size = 3 ∧
      ∃ failure, machine.step.1 = .failed failure ∧ failure.fault = .stackOverflow 4 ∧
        machine.StopsAt machine.step.2 failure := by
  intro start machine
  have hfault : machine.step.1.failure?.map Failure.fault = some (.stackOverflow 4) := by
    decide +kernel
  obtain ⟨failure, hfailure, hfault⟩ := Option.map_eq_some_iff.mp hfault
  have hfailed := StepResult.failure?_eq_some_iff.mp hfailure
  have hsize : machine.store.stack.size = 4 := by decide +kernel
  refine ⟨hsize, by decide +kernel, failure, hfailed, hfault, stopsAt_of_failed ?_ hfailed⟩
  rw [hsize]
  decide +kernel

end Machine

end GlyphStack
