import GlyphStack.Proofs.Machine.Failing
import GlyphStack.Proofs.Machine.Stepping
import GlyphStack.Proofs.Machine.Taking

/-!
Gathering values into an array and spreading an array out undo each other. `>` takes a count and then
as many values as it says, and puts them back as one new array; `<` takes an array and puts its items
in its place. After `><` the stack is what it was without the count. After `<`, a count of the items
and `>` there is a new array with the same items where the old one was.

The array that is spread out can be the current stack itself. It stands on itself then, and taking it
off changes it: what `<` reads are the items that are left, one fewer than before, and the count has
to be one of these.
-/

namespace GlyphStack

open Store

/-- The count that `>` reads from a value: the whole part of its number, and nothing for a number
below zero or NaN. -/
def Heap.toCount (heap : Heap) (v : Value) : Nat :=
  (Number.truncate (heap.toNumber v)).toCount

namespace Store

/-! ## 1. What stays -/

/-- Nothing differs but the contents of the current stack; there may be more storages. -/
structure OnlyStackChanged (base after : Store) : Prop where
  frames : after.frames = base.frames
  bindings : after.bindings = base.bindings
  output : after.output = base.output
  size_le : base.heap.size ≤ after.heap.size
  storages : ∀ ref : Ref, ref.index < base.heap.size → ref ≠ base.frames.current →
    after.heap.read ref = base.heap.read ref

namespace OnlyStackChanged

variable {base store after : Store}

theorem refl (base : Store) : OnlyStackChanged base base :=
  ⟨rfl, rfl, rfl, Nat.le_refl _, fun _ _ _ => rfl⟩

theorem trans (h : OnlyStackChanged base store) (h' : OnlyStackChanged store after) :
    OnlyStackChanged base after where
  frames := h'.frames.trans h.frames
  bindings := h'.bindings.trans h.bindings
  output := h'.output.trans h.output
  size_le := Nat.le_trans h.size_le h'.size_le
  storages ref hthere hother :=
    (h'.storages ref (Nat.lt_of_lt_of_le hthere h.size_le) (h.frames.symm ▸ hother)).trans
      (h.storages ref hthere hother)

theorem mapStack (base : Store) (change : Array Value → Array Value) :
    OnlyStackChanged base (base.mapStack change) where
  frames := rfl
  bindings := rfl
  output := rfl
  size_le := Nat.le_of_eq (size_heap_mapStack base change).symm
  storages _ _ hother := read_mapStack_of_ne change hother

theorem taking (base : Store) (n : Nat) : OnlyStackChanged base (base.taking n) :=
  mapStack base _

theorem adding (base : Store) (items : Array Value) :
    OnlyStackChanged base (base.adding items) where
  frames := rfl
  bindings := rfl
  output := rfl
  size_le := by simp [Store.adding]
  storages _ hthere _ := Heap.read_alloc_of_lt items hthere

end OnlyStackChanged

/-! ## 2. What one unit does -/

/-- The top `n` values of a stack stand on it as an array that is new. -/
structure Gathered (base : Store) (stack : Array Value) (n : Nat) (fresh : Ref) (after : Store) :
    Prop where
  stack_eq : after.stack = (stack.shrink (stack.size - n)).push (.array fresh)
  items_eq : after.heap.read fresh = stack.extract (stack.size - n)
  new : base.heap.size ≤ fresh.index
  there : fresh.index < after.heap.size
  other : fresh ≠ after.frames.current
  rest : OnlyStackChanged base after

section Perform

variable {store : Store} {below items : Array Value} {n : Nat}

theorem ne_of_new {ref new : Ref} {size : Nat} (hthere : ref.index < size)
    (hnew : size ≤ new.index) : new ≠ ref := by
  rintro rfl
  omega

/-- Values come off a stack below a new storage as they do without it. -/
theorem stack_taking_adding (hthere : store.frames.current.index < store.heap.size) :
    ((store.adding items).taking n).stack = store.stack.shrink (store.stack.size - n) := by
  have hthere' : (store.adding items).frames.current.index < (store.adding items).heap.size :=
    Nat.lt_of_lt_of_le hthere (OnlyStackChanged.adding store items).size_le
  rw [taking, stack_mapStack _ hthere', stack_adding hthere]

/-- And the new storage keeps its items. -/
theorem read_taking_adding (hthere : store.frames.current.index < store.heap.size) :
    ((store.adding items).taking n).heap.read ⟨store.heap.size⟩ = items := by
  have hother : (⟨store.heap.size⟩ : Ref) ≠ store.frames.current :=
    ne_of_new hthere (Nat.le_refl _)
  rw [taking, read_mapStack_of_ne _ (by exact hother)]
  exact read_adding_self store items

/-- `>` gathers as many values as its operand counts, if there are so many. -/
theorem perform_gather (limits : Limits) {count : Value} (hstack : store.stack = below.push count)
    (hfits : below.size < limits.stackSize)
    (hcount : (store.taking 1).heap.toCount count ≤ below.size) :
    ∃ fresh after, perform limits '>' .gather store = .ok () after ∧
      Gathered store below ((store.taking 1).heap.toCount count) fresh after := by
  have hpopped : (store.taking 1).stack = below := stack_taking_one hstack
  have hsize : (store.taking 1).heap.size = store.heap.size := size_heap_mapStack store _
  have hthere : (store.taking 1).frames.current.index < (store.taking 1).heap.size :=
    hsize.symm ▸ current_lt_of_stack_eq_push hstack
  have hpop := popOne_of_stack_eq ">" hstack
  have hrest := OnlyStackChanged.taking store 1
  generalize hn : (store.taking 1).heap.toCount count = n at hcount ⊢
  generalize store.taking 1 = popped at hpopped hsize hthere hpop hrest hn
  let left := (popped.adding (below.extract (below.size - n))).taking n
  have hgather : gather ">" n popped = .ok (.array ⟨popped.heap.size⟩) left := by
    rw [gather_of_le (hpopped ▸ hcount), hpopped]
  have hleft : left.stack = below.shrink (below.size - n) := by
    rw [stack_taking_adding hthere, hpopped]
  have hsizeLeft : left.heap.size = popped.heap.size + 1 := by
    simp [left, taking, adding]
  have hthereLeft : left.frames.current.index < left.heap.size :=
    hsizeLeft ▸ Nat.lt_succ_of_lt hthere
  have hroom : left.stack.size < limits.stackSize := by
    rw [hleft, Array.size_shrink]
    omega
  have hother : (⟨popped.heap.size⟩ : Ref) ≠ left.frames.current :=
    ne_of_new hthere (Nat.le_refl _)
  refine ⟨⟨popped.heap.size⟩, left.mapStack (·.push (.array ⟨popped.heap.size⟩)), ?_, ?_⟩
  · show (popOne ">" >>= _) store = _
    rw [Action.bind_of_ok hpop]
    show (gather ">" (popped.heap.toCount count) >>= _) popped = _
    rw [hn, Action.bind_of_ok hgather, push_of_lt _ hroom]
  · exact {
      stack_eq := by rw [stack_mapStack _ hthereLeft, hleft]
      items_eq := (read_mapStack_of_ne _ hother).trans (read_taking_adding hthere)
      new := Nat.le_of_eq hsize.symm
      there := by simp [hsizeLeft]
      other := hother
      rest := hrest.trans <| (OnlyStackChanged.adding popped _).trans <|
        (OnlyStackChanged.taking _ n).trans <| OnlyStackChanged.mapStack left _ }

/-- `<` puts the items of an array in its place, if there is room for them. -/
theorem perform_spread (limits : Limits) {ref : Ref} (hstack : store.stack = below.push (.array ref))
    (hfits : below.size + ((store.taking 1).heap.read ref).size ≤ limits.stackSize) :
    ∃ after, perform limits '<' .spread store = .ok () after ∧
      after.stack = below ++ (store.taking 1).heap.read ref ∧ OnlyStackChanged store after := by
  have hpopped : (store.taking 1).stack = below := stack_taking_one hstack
  have hthere : (store.taking 1).frames.current.index < (store.taking 1).heap.size := by
    rw [show (store.taking 1).heap.size = _ from size_heap_mapStack store _]
    exact current_lt_of_stack_eq_push hstack
  refine ⟨(store.taking 1).mapStack (· ++ (store.taking 1).heap.read ref), ?_, ?_,
    (OnlyStackChanged.taking store 1).trans (OnlyStackChanged.mapStack _ _)⟩
  · show (popArray "<" >>= _) store = _
    rw [Action.bind_of_ok (popArray_of_stack_eq "<" hstack)]
    show (ite _ (modifyStack _) (throw _) : Action Unit) (store.taking 1) = _
    rw [if_pos (hpopped.symm ▸ hfits)]
    rfl
  · rw [stack_mapStack _ hthere, hpopped]

end Perform

end Store

/-! ## 3. Machines -/

namespace Machine

variable {machine : Machine} {below : Array Value}

/-- A machine goes on behind a unit of one character that can be carried out. -/
theorem step_of_perform {first : Char} {tail : List Char} {instruction : Instruction}
    {store : Store} (hrunning : machine.halted = false)
    (hrest : machine.program.rest machine.position = first :: tail)
    (hunit : dispatch machine.program machine.limits machine.position first tail =
      (do perform machine.limits first instruction; return machine.position + 1))
    (hperform : perform machine.limits first instruction machine.store = .ok () store) :
    machine.step = (.continued, { machine with store, position := machine.position + 1 }) := by
  refine step_of_dispatch hrunning hrest ?_
  rw [hunit, Action.bind_of_ok hperform]
  rfl

/-- A count in front of `><` comes off, and the values that it counts stay where they are. -/
theorem stepped_gather_spread {count : Value} {tail : List Char} (hrunning : machine.halted = false)
    (hrest : machine.program.rest machine.position = '>' :: '<' :: tail)
    (hstack : machine.store.stack = below.push count)
    (hfits : machine.store.stack.size ≤ machine.limits.stackSize)
    (hcount : (machine.store.taking 1).heap.toCount count ≤ below.size) :
    machine.step.1 = .continued ∧ machine.step.2.step.1 = .continued ∧
      ∃ store, machine.stepped 2 = { machine with store, position := machine.position + 2 } ∧
        store.stack = below ∧ OnlyStackChanged machine.store store := by
  have hroom : below.size < machine.limits.stackSize := by
    rw [hstack, Array.size_push] at hfits
    exact hfits
  obtain ⟨fresh, gathered, hgather, hgathered⟩ :=
    perform_gather machine.limits hstack hroom hcount
  have hfirst := step_of_perform hrunning hrest rfl hgather
  have hitems : (gathered.taking 1).heap.read fresh = _ :=
    (read_mapStack_of_ne _ hgathered.other).trans hgathered.items_eq
  generalize (machine.store.taking 1).heap.toCount count = n at hcount hgathered hitems
  have hjoined : below.shrink (below.size - n) ++ (gathered.taking 1).heap.read fresh = below := by
    rw [hitems, Array.shrink_eq_take]
    simp
  have hfits' : (below.shrink (below.size - n)).size +
      ((gathered.taking 1).heap.read fresh).size ≤ machine.limits.stackSize := by
    rw [← Array.size_append, hjoined]
    exact Nat.le_of_lt hroom
  obtain ⟨store, hspread, hstore, hrestored⟩ :=
    perform_spread machine.limits hgathered.stack_eq hfits'
  have hrest' : machine.program.rest (machine.position + 1) = '<' :: tail := by
    rw [Program.rest, ← List.drop_drop, ← Program.rest, hrest, List.drop_one, List.tail_cons]
  have hsecond : step { machine with store := gathered, position := machine.position + 1 } =
      (.continued, { machine with store, position := machine.position + 1 + 1 }) :=
    step_of_perform hrunning hrest' rfl hspread
  refine ⟨by rw [hfirst], by rw [hfirst, hsecond], store, ?_, hstore.trans hjoined,
    hgathered.rest.trans hrestored⟩
  rw [stepped_succ, stepped_succ, stepped_zero, hfirst, hsecond]

/-- The items of an array that was spread out, gathered again by their number, are a new array in
its place. -/
theorem step_spread_gather {ref : Ref} {tail : List Char} (hrunning : machine.halted = false)
    (hrest : machine.program.rest machine.position = '<' :: tail)
    (hstack : machine.store.stack = below.push (.array ref))
    {items : Array Value} (hitems : (machine.store.taking 1).heap.read ref = items)
    (hroom : below.size + items.size < machine.limits.stackSize) :
    machine.step.1 = .continued ∧
      ∀ v, ∃ pushed, push machine.limits v machine.step.2.store = .ok () pushed ∧
        ∀ position tail', machine.program.rest position = '>' :: tail' →
          (pushed.taking 1).heap.toCount v = items.size →
          ∃ fresh store, { machine with store := pushed, position }.step =
              (.continued, { machine with store, position := position + 1 }) ∧
            store.stack = below.push (.array fresh) ∧ store.heap.read fresh = items ∧
            machine.store.heap.size ≤ fresh.index ∧ OnlyStackChanged machine.store store := by
  subst hitems
  obtain ⟨spread, hspread, hstack', hspreads⟩ :=
    perform_spread machine.limits hstack (Nat.le_of_lt hroom)
  have hfirst := step_of_perform hrunning hrest rfl hspread
  generalize (machine.store.taking 1).heap.read ref = items at hstack' hroom ⊢
  have hsize : spread.stack.size = below.size + items.size := by rw [hstack', Array.size_append]
  refine ⟨by rw [hfirst], fun v => ⟨spread.mapStack (·.push v), ?_, ?_⟩⟩
  · rw [hfirst]
    exact push_of_lt v (hsize.symm ▸ hroom)
  · intro position tail' hrest' hcount
    have hthere : spread.frames.current.index < spread.heap.size := by
      rw [hspreads.frames]
      exact Nat.lt_of_lt_of_le (current_lt_of_stack_eq_push hstack) hspreads.size_le
    have hpushed : (spread.mapStack (·.push v)).stack = (below ++ items).push v := by
      rw [stack_mapStack _ hthere, hstack']
    obtain ⟨fresh, store, hgather, hgathered⟩ :=
      perform_gather machine.limits hpushed (Array.size_append ▸ hroom)
        (by rw [hcount, Array.size_append]; exact Nat.le_add_left _ _)
    rw [hcount] at hgathered
    have hbase : (below ++ items).size - items.size = below.size := by simp
    have hpush := OnlyStackChanged.mapStack spread (·.push v)
    refine ⟨fresh, store, step_of_perform hrunning hrest' rfl hgather, ?_, ?_, ?_,
      hspreads.trans (hpush.trans hgathered.rest)⟩
    · rw [hgathered.stack_eq, hbase]
      simp
    · rw [hgathered.items_eq, hbase]
      simp
    · exact Nat.le_trans (hspreads.trans hpush).size_le hgathered.new

/-- **Gathering and spreading undo each other.** A machine at `><`, on a stack within the limit with a
count on top, which is read when it is off, and at least as many values below it, makes two steps;
the count is gone then, and nothing else on the stack, in the storages that were there, among the
open stacks and variables or in the output has changed. And a machine at `<` with an array on top, on
whose stack there is room for the items and one value more, goes on to spread them; on top of them any
value can be pushed, and if that counts as many values as there were items, then `>` leaves a new array
with these items in the place of the old one and changes nothing else. The items are those that the
array has when it is off the stack: the ones it had before, unless it is the current stack itself. -/
theorem gather_spread_inverse (machine : Machine) (below : Array Value)
    (hrunning : machine.halted = false) :
    (∀ count tail, machine.program.rest machine.position = '>' :: '<' :: tail →
      machine.store.stack = below.push count →
      machine.store.stack.size ≤ machine.limits.stackSize →
      (machine.store.taking 1).heap.toCount count ≤ below.size →
      machine.step.1 = .continued ∧ machine.step.2.step.1 = .continued ∧
        ∃ store, machine.stepped 2 = { machine with store, position := machine.position + 2 } ∧
          store.stack = below ∧ OnlyStackChanged machine.store store) ∧
    ∀ ref tail items, machine.program.rest machine.position = '<' :: tail →
      machine.store.stack = below.push (.array ref) →
      (machine.store.taking 1).heap.read ref = items →
      below.size + items.size < machine.limits.stackSize →
      (ref ≠ machine.store.frames.current → machine.store.heap.read ref = items) ∧
      machine.step.1 = .continued ∧
        ∀ v, ∃ pushed, push machine.limits v machine.step.2.store = .ok () pushed ∧
          ∀ position tail', machine.program.rest position = '>' :: tail' →
            (pushed.taking 1).heap.toCount v = items.size →
            ∃ fresh store, { machine with store := pushed, position }.step =
                (.continued, { machine with store, position := position + 1 }) ∧
              store.stack = below.push (.array fresh) ∧ store.heap.read fresh = items ∧
              machine.store.heap.size ≤ fresh.index ∧ OnlyStackChanged machine.store store :=
  ⟨fun _ _ hrest hstack hfits hcount => stepped_gather_spread hrunning hrest hstack hfits hcount,
    fun _ _ _ hrest hstack hitems hroom =>
      ⟨fun hother => (read_mapStack_of_ne _ hother).symm.trans hitems,
        step_spread_gather hrunning hrest hstack hitems hroom⟩⟩

/-- A text counts as the number it is, and the stack can be the array that is spread out. -/
theorem gather_spread_of_text_and_self :
    let gathering := (onHeap .empty "><").withFrames [#[.string "a", .string "b", .string "1"]]
    let spreading := (onHeap .empty "<>").withFrames [#[.string "a", .string "b", .array ⟨1⟩]]
    (∃ store, gathering.stepped 2 = { gathering with store, position := 2 } ∧
      store.stack = #[.string "a", .string "b"] ∧ OnlyStackChanged gathering.store store) ∧
    ∃ pushed fresh store,
      push spreading.limits (.string "2") spreading.step.2.store = .ok () pushed ∧
      { spreading with store := pushed, position := 1 }.step =
        (.continued, { spreading with store, position := 2 }) ∧
      store.stack = #[.string "a", .string "b", .array fresh] ∧
      store.heap.read fresh = #[.string "a", .string "b"] := by
  intro gathering spreading
  have hgathering := (gather_spread_inverse gathering #[.string "a", .string "b"] rfl).1
    (.string "1") [] rfl rfl (by decide) (by decide +kernel)
  have hspreading := (gather_spread_inverse spreading #[.string "a", .string "b"] rfl).2
    ⟨1⟩ ['>'] #[.string "a", .string "b"] rfl rfl rfl (by decide)
  obtain ⟨pushed, hpush, hgather⟩ := hspreading.2.2 (.string "2")
  have hcount : (Number.truncate (readNumber "2")).toCount = 2 := by decide +kernel
  obtain ⟨fresh, store, hstep, hstack, hitems, -⟩ := hgather 1 [] rfl hcount
  exact ⟨hgathering.2.2, pushed, fresh, store, hpush, hstep, hstack, hitems⟩

/-- A stack that stands on itself is spread out without its top: the three values that are gathered
then are not the three that it held. -/
theorem not_restored_of_self_spread :
    let machine := (onHeap .empty "[a b]x=x^|x^<3>").stepped 12
    let after := machine.stepped 3
    machine.program.rest machine.position = "<3>".toList ∧
    (∀ k < 3, (machine.stepped k).step.1.failure?.isNone) ∧
    ∃ (below : Array Value) (ref : Ref), machine.store.stack = below.push (.array ref) ∧
      (machine.store.heap.read ref).size = 3 ∧
      ¬ ∃ fresh, after.store.stack = below.push (.array fresh) ∧
        after.store.heap.read fresh = machine.store.heap.read ref := by
  intro machine after
  have hsize : machine.store.stack.size = 3 := by decide +kernel
  have hafter : after.store.stack.size = 2 := by decide +kernel
  have htop : (machine.store.stack.back?.map fun v => (v.expectArray "<").map fun ref =>
      (machine.store.heap.read ref).size) = some (.ok 3) := by decide +kernel
  obtain ⟨v, hback, harray⟩ := Option.map_eq_some_iff.mp htop
  obtain ⟨below, hstack⟩ := Array.back?_eq_some_iff.mp hback
  obtain ⟨ref, href, hread⟩ := Program.of_map_eq_ok harray
  rw [Value.eq_of_expectArray href] at hstack
  refine ⟨by decide +kernel, by decide +kernel, below, ref, hstack, hread, ?_⟩
  rintro ⟨fresh, hrestored, -⟩
  rw [hstack, Array.size_push] at hsize
  rw [hrestored, Array.size_push] at hafter
  omega

end Machine

end GlyphStack
