import GlyphStack.Proofs.Machine.Effect
import GlyphStack.Proofs.Store.Unaliased

/-!
Brackets keep the stack around them. A stack that was opened from an array with `|` is that array,
and whoever holds the array can change it. The other stacks nothing refers to while they are open:
the ones that a machine starts with, those that `[` opened, and the one that stands in for the only
stack when `]` closes that. They are `Literal` here, and that they are unaliased is an invariant of
every run (`Literal.unaliased`).

So what happens between a `[` and the `]` that closes it cannot touch the stack around them, if that
one is literal: the units in between work on stacks further in, and the only storages that they
change besides are arrays that they took from some stack.
-/

namespace GlyphStack

open Store

/-! ## 1. Machines of a host -/

namespace Machine

/-- A host built the machine for the program text `code`; the arrays it gave it all have their
storages. -/
inductive Hosted (code : String) : Machine → Prop where
  | onHeap {heap : Heap} (h : heap.Closed) : Hosted code (.onHeap heap code)
  | withLimits {machine : Machine} (h : Hosted code machine) (limits : Limits) :
      Hosted code (machine.withLimits limits)
  | withOrigin {machine : Machine} (h : Hosted code machine) (origin : Origin) :
      Hosted code (machine.withOrigin origin)
  | withBindings {machine machine' : Machine} (h : Hosted code machine) {bindings : Dictionary}
      (hok : machine.withBindings bindings = .ok machine') : Hosted code machine'
  | withFrames {machine : Machine} (h : Hosted code machine) {contents : List (Array Value)}
      (hcontents : ∀ items ∈ contents, ∀ v ∈ items, v.Within machine.store.heap.size) :
      Hosted code (machine.withFrames contents)

/-- No value of the host is one of the stacks that a machine starts with. -/
theorem Hosted.pristine {code : String} {machine : Machine} (h : Hosted code machine) :
    machine.store.Pristine := by
  induction h with
  | onHeap h => exact pristine_onHeap h
  | withLimits _ _ ih => exact ih
  | withOrigin _ _ ih => exact ih
  | withBindings _ hok ih =>
    obtain ⟨copies, heap, hsnapshot, rfl⟩ := withBindings_eq_ok_iff.mp hok
    exact ih.snapshot hsnapshot
  | withFrames _ hcontents ih => exact ih.closed.pristine_withFrames hcontents

theorem Reachable.closed {start machine : Machine} (h : Reachable start machine)
    (hstart : start.store.Closed) : machine.store.Closed :=
  h.invariant hstart fun heffect hbase => hbase.of_effect heffect

/-! ## 2. Brackets -/

/-- The next step carries out a unit of this instruction. -/
def CarriesOut (machine : Machine) (instruction : Instruction) : Prop :=
  machine.unit? = some instruction ∧ machine.step.1 = .continued

/-- A step that does not halt the machine carried its unit out. -/
theorem carriesOut_of_running {machine : Machine} {instruction : Instruction}
    (hunit : machine.unit? = some instruction) (hrunning : machine.step.2.halted = false) :
    machine.CarriesOut instruction := by
  refine ⟨hunit, ?_⟩
  rcases step_cases machine with ⟨hhalted, -⟩ | ⟨-, -, hstep⟩ | ⟨_, _, -, hstep⟩ |
    ⟨_, _, -, hstep⟩
  · simp [unit?, hhalted] at hunit
  · simp [hstep] at hrunning
  · rw [hstep]
  · simp [hstep] at hrunning

/-- A step at a unit ends as dispatching the unit does. -/
theorem step_of_unit? {machine : Machine} {instruction : Instruction}
    (h : machine.unit? = some instruction) :
    ∃ first tail, Instruction.ofChar first = instruction ∧
      Ends (dispatch machine.program machine.limits machine.position first tail machine.store)
        (fun _ store => machine.step.1 = .continued ∧ machine.step.2.store = store)
        (fun _ store => machine.step.1 ≠ .continued ∧ machine.step.2.store = store) := by
  rcases step_cases machine with ⟨hhalted, -⟩ | ⟨-, hrest, -⟩ | ⟨next, store, hcarries, hstep⟩ |
    ⟨fault, store, hcarries, hstep⟩
  · simp [unit?, hhalted] at h
  · simp [unit?, hrest] at h
  · obtain ⟨first, tail, -, hunit, hdispatch⟩ := hcarries.unit?
    refine ⟨first, tail, Option.some.inj (hunit.symm.trans h), ?_⟩
    rw [hdispatch, hstep]
    exact ⟨rfl, rfl⟩
  · obtain ⟨first, tail, -, hunit, hdispatch⟩ := hcarries.unit?
    refine ⟨first, tail, Option.some.inj (hunit.symm.trans h), ?_⟩
    rw [hdispatch, hstep]
    exact ⟨by simp, rfl⟩

/-- A `[` opens a new stack, or it fails and touches nothing. -/
theorem step_openFrame {machine : Machine} (hunit : machine.unit? = some .openFrame) :
    (machine.step.1 = .continued ∧ machine.step.2.store =
      { machine.store.adding #[] with
        frames := machine.store.frames.openOne ⟨machine.store.heap.size⟩ }) ∨
    (machine.step.1 ≠ .continued ∧ machine.step.2.store = machine.store) := by
  obtain ⟨first, tail, hfirst, hends⟩ := step_of_unit? hunit
  have hdispatch : dispatch machine.program machine.limits machine.position first tail =
      (do openFrame machine.limits; return machine.position + 1) := by
    simp only [dispatch, hfirst]
    rfl
  rw [hdispatch] at hends
  have hopen := openFrame_eq machine.limits machine.store
  by_cases hdepth : machine.store.frames.depth < machine.limits.frameDepth
  · rw [if_pos hdepth] at hopen
    rw [Action.bind_of_ok hopen] at hends
    exact .inl hends
  · rw [if_neg hdepth] at hopen
    rw [Action.bind_of_error hopen] at hends
    exact .inr hends

/-- A `[` that is carried out opens a new stack. -/
theorem CarriesOut.store_eq {machine : Machine} (h : machine.CarriesOut .openFrame) :
    machine.step.2.store =
      { machine.store.adding #[] with
        frames := machine.store.frames.openOne ⟨machine.store.heap.size⟩ } := by
  rcases step_openFrame h.1 with ⟨-, hstore⟩ | ⟨hstopped, -⟩
  · exact hstore
  · exact absurd h.2 hstopped

/-- A `]` closes the current stack, and if there is room, what it closed is pushed as an array. -/
theorem step_closeFrame {machine : Machine} (hunit : machine.unit? = some .closeFrame) :
    ∃ store, machine.store.Drops store ∧
      (store.stack.size < machine.limits.stackSize ∧
        machine.step.2.store = store.mapStack (·.push (.array machine.store.frames.current)) ∨
      machine.step.1 ≠ .continued ∧ machine.step.2.store = store) := by
  obtain ⟨first, tail, hfirst, hends⟩ := step_of_unit? hunit
  have hdispatch : dispatch machine.program machine.limits machine.position first tail =
      (do closeFrame machine.limits; return machine.position + 1) := by
    simp only [dispatch, hfirst]
    rfl
  obtain ⟨store, hdrop, hclose⟩ := closeFrame_eq machine.limits machine.store
  rw [hdispatch] at hends
  refine ⟨store, hdrop, ?_⟩
  rcases Nat.lt_or_ge store.stack.size machine.limits.stackSize with hroom | hfull
  · rw [push_of_lt _ hroom] at hclose
    rw [Action.bind_of_ok hclose] at hends
    exact .inl ⟨hroom, hends.2⟩
  · rw [push_of_le _ hfull] at hclose
    rw [Action.bind_of_error hclose] at hends
    exact .inr hends

/-! ## 3. Literal stacks -/

/-- The stack has been open since the start of the run, or since a `[` opened it or it stood in for
the only stack when `]` closed that. -/
inductive Literal (start : Machine) : Machine → Ref → Prop where
  | initial {ref : Ref} (h : ref ∈ start.store.frames.toList) : Literal start start ref
  | opened {machine : Machine} (hreach : Reachable start machine)
      (h : machine.CarriesOut .openFrame) :
      Literal start machine.step.2 machine.step.2.store.frames.current
  | replaced {machine : Machine} (hreach : Reachable start machine)
      (hunit : machine.unit? = some .closeFrame) (honly : machine.store.frames.depth = 1) :
      Literal start machine.step.2 machine.step.2.store.frames.current
  | step {machine : Machine} {ref : Ref} (h : Literal start machine ref)
      (hopen : ref ∈ machine.step.2.store.frames.toList) : Literal start machine.step.2 ref
  | halt {machine : Machine} {ref : Ref} (h : Literal start machine ref) :
      Literal start { machine with halted := true } ref

/-- A step aliases no stack that stays open. -/
theorem unaliased_step {machine : Machine} {ref : Ref} (h : machine.store.Unaliased ref)
    (hopen : ref ∈ machine.step.2.store.frames.toList) : machine.step.2.store.Unaliased ref := by
  obtain ⟨instruction, heffect⟩ := machine.effect_step
  exact h.of_effect heffect hopen

/-- What `[` opens is new. -/
theorem CarriesOut.unaliased {machine : Machine} (h : machine.CarriesOut .openFrame)
    (hclosed : machine.store.Closed) :
    machine.step.2.store.Unaliased machine.step.2.store.frames.current := by
  rw [h.store_eq]
  refine hclosed.unaliased_adding ?_
  have hnew : ⟨machine.store.heap.size⟩ ∉ machine.store.frames.toList := by
    intro hmem
    exact Nat.lt_irrefl _ (hclosed.frames _ hmem)
  rw [Frames.toList_openOne, List.count_append, List.count_eq_zero_of_not_mem hnew]
  simp

/-- What stands in for the only stack is new. -/
theorem unaliased_of_closeFrame {machine : Machine} (hunit : machine.unit? = some .closeFrame)
    (honly : machine.store.frames.depth = 1) (hclosed : machine.store.Closed) :
    machine.step.2.store.Unaliased machine.step.2.store.frames.current := by
  obtain ⟨store, hdrop, hstore⟩ := step_closeFrame hunit
  obtain ⟨hunaliased, hother⟩ : store.Unaliased store.frames.current ∧
      machine.store.frames.current ≠ store.frames.current := by
    cases hdrop with
    | inner hclose =>
      rw [Frames.closeOne?_eq_none_iff.mpr honly] at hclose
      contradiction
    | only =>
      refine ⟨hclosed.unaliased_adding (by simp [Frames.single, Frames.toList]), ?_⟩
      intro hcurrent
      have hthere := hclosed.current
      rw [hcurrent] at hthere
      exact Nat.lt_irrefl _ hthere
  rcases hstore with ⟨-, hstore⟩ | ⟨-, hstore⟩
  · rw [hstore]
    exact hunaliased.push fun h => hother (Value.array.inj h)
  · rw [hstore]
    exact hunaliased

/-- Nothing refers to a literal stack while it is open. -/
theorem Literal.unaliased {start machine : Machine} {ref : Ref} (h : Literal start machine ref)
    (hstart : start.store.Pristine) : machine.store.Unaliased ref := by
  induction h with
  | initial hmem => exact hstart.unaliased _ hmem
  | opened hreach hopen => exact hopen.unaliased (hreach.closed hstart.closed)
  | replaced hreach hunit honly =>
    exact unaliased_of_closeFrame hunit honly (hreach.closed hstart.closed)
  | step _ hopen ih => exact unaliased_step ih hopen
  | halt _ ih => exact ih

end Machine

/-! ## 4. Between the brackets -/

namespace Store

/-- What holds between the brackets, with `base` the store before them and `inner` the stack that
was opened: the stacks of `base` are open and further ones on top, and the one that was current
reads as it did and is no value. -/
structure Encloses (base : Store) (inner : Ref) (store : Store) : Prop where
  frames : ∃ rest, store.frames.toList = base.frames.toList ++ inner :: rest
  unaliased : store.Unaliased base.frames.current
  read : store.heap.read base.frames.current = base.heap.read base.frames.current

namespace Encloses

variable {limits : Limits} {base store after : Store} {instruction : Instruction} {inner : Ref}

/-- The stack around the brackets is not the one that a unit works on. -/
theorem ne_current (h : base.Encloses inner store) :
    base.frames.current ≠ store.frames.current := by
  obtain ⟨rest, hframes⟩ := h.frames
  exact h.unaliased.ne_current hframes base.frames.current_mem_toList

/-- Closing a stack and leaving more open than there were before the brackets leaves `inner`
open. -/
theorem frames_of_closesTo (h : base.Encloses inner store) (hclose : store.ClosesTo after)
    (hdeep : base.frames.depth < after.frames.depth) :
    ∃ rest, after.frames.toList = base.frames.toList ++ inner :: rest := by
  obtain ⟨rest, hframes⟩ := h.frames
  rcases hclose with hclose | ⟨-, hsingle, -⟩
  · rw [Frames.toList_of_closeOne? hclose] at hframes
    rcases List.eq_nil_or_concat rest with rfl | ⟨front, last, rfl⟩
    · have hlength := congrArg List.length hframes
      simp [Frames.length_toList] at hlength
      omega
    · refine ⟨front, ?_⟩
      have hsplit : after.frames.toList ++ [store.frames.current] =
          (base.frames.toList ++ inner :: front) ++ [last] := by simpa using hframes
      exact (List.append_inj' hsplit rfl).1
  · rw [hsingle] at hdeep
    have hpos : 1 ≤ base.frames.depth := Nat.le_add_left 1 _
    exact absurd hdeep (Nat.not_lt.mpr hpos)

/-- A unit that leaves more stacks open than there were before the brackets stays inside them. -/
theorem of_effect (h : base.Encloses inner store)
    (heffect : Effect limits store instruction after)
    (hdeep : base.frames.depth < after.frames.depth) : base.Encloses inner after := by
  have hframes : ∃ rest, after.frames.toList = base.frames.toList ++ inner :: rest := by
    rcases heffect.frames_cases with hsame | ⟨-, ref, hopened, -⟩ | ⟨-, hclose⟩
    · rw [hsame]
      exact h.frames
    · obtain ⟨rest, hframes⟩ := h.frames
      exact ⟨rest ++ [ref], by simp [hopened, hframes]⟩
    · exact h.frames_of_closesTo hclose hdeep
  obtain ⟨rest, hframes'⟩ := hframes
  have hopen : base.frames.current ∈ after.frames.toList := by
    rw [hframes']
    exact List.mem_append_left _ base.frames.current_mem_toList
  have hunaliased := h.unaliased.of_effect heffect hopen
  refine ⟨⟨rest, hframes'⟩, hunaliased, ?_⟩
  rw [← h.read]
  refine heffect.read_eq h.unaliased.there h.ne_current ?_ ?_
  · intro _
    exact hunaliased.ne_current hframes' base.frames.current_mem_toList
  · intro hchanges
    exact h.unaliased.storages _ hchanges.mem

end Encloses

end Store

namespace Machine

/-- The machine comes from `start` by steps after each of which more than `depth` stacks are
open. -/
inductive Inside (depth : Nat) (start : Machine) : Machine → Prop where
  | refl : Inside depth start start
  | step {machine : Machine} (h : Inside depth start machine)
      (hdeep : depth < machine.step.2.store.frames.depth) : Inside depth start machine.step.2

/-- Right behind the opening bracket only the new stack is open on top. -/
theorem encloses_openFrame {before : Machine} (hopen : before.CarriesOut .openFrame)
    (h : before.store.Unaliased before.store.frames.current) :
    before.store.Encloses before.step.2.store.frames.current before.step.2.store := by
  have hstore := hopen.store_eq
  have hframes : before.step.2.store.frames.toList =
      before.store.frames.toList ++ [before.step.2.store.frames.current] := by
    rw [hstore, Frames.toList_openOne]
    rfl
  refine ⟨⟨[], hframes⟩, unaliased_step h ?_, ?_⟩
  · rw [hframes]
    exact List.mem_append_left _ before.store.frames.current_mem_toList
  · rw [hstore]
    exact Heap.read_alloc_of_lt _ h.there

/-- Everything between the brackets leaves the stack around them alone. -/
theorem Inside.encloses {base : Store} {start machine : Machine} {inner : Ref}
    (hinside : Inside base.frames.depth start machine) (h : base.Encloses inner start.store) :
    base.Encloses inner machine.store := by
  induction hinside with
  | refl => exact h
  | @step machine _ hdeep ih =>
    obtain ⟨instruction, heffect⟩ := machine.effect_step
    exact ih.of_effect heffect hdeep

/-- The closing bracket leads back to the stacks that were open before, and pushes what it closed
onto the one around it. -/
theorem step_closeFrame_of_encloses {base : Store} {closing : Machine} {inner : Ref}
    (h : base.Encloses inner closing.store) (hclose : closing.CarriesOut .closeFrame)
    (hdepth : closing.step.2.store.frames.depth = base.frames.depth) :
    closing.step.2.store.frames = base.frames ∧
      closing.step.2.store.heap.read base.frames.current =
        (base.heap.read base.frames.current).push (.array inner) := by
  obtain ⟨store, hdrop, ⟨-, hstore⟩ | ⟨hstopped, -⟩⟩ := step_closeFrame hclose.1
  · rw [hstore] at hdepth ⊢
    obtain ⟨rest, hframes⟩ := h.frames
    cases hdrop with
    | @inner outer hinner =>
      rw [Frames.toList_of_closeOne? hinner] at hframes
      have hlength : outer.toList.length = base.frames.toList.length := by
        rw [Frames.length_toList, Frames.length_toList]
        exact hdepth
      obtain ⟨houter, hclosed⟩ := List.append_inj hframes hlength
      obtain ⟨hcurrent, -⟩ := List.cons.inj hclosed
      cases Frames.toList_inj houter
      refine ⟨rfl, ?_⟩
      rw [hcurrent, ← h.read]
      exact Heap.read_update_self _ h.unaliased.there
    | only honly =>
      -- behind the opening bracket there are two stacks at least
      have hlength := congrArg List.length hframes
      rw [Frames.length_toList, Frames.closeOne?_eq_none_iff.mp honly, List.length_append,
        List.length_cons, Frames.length_toList] at hlength
      have hpos : 1 ≤ base.frames.depth := Nat.le_add_left 1 _
      omega
  · exact absurd hclose.2 hstopped

/-- **Literal stacks are unaliased, and brackets keep the stack around them.** -/
theorem literal_brackets {code : String} {start : Machine} (hstart : Hosted code start) :
    (∀ machine ref, Literal start machine ref → machine.store.Unaliased ref) ∧
    ∀ before closing : Machine,
      Literal start before before.store.frames.current → before.CarriesOut .openFrame →
      Inside before.store.frames.depth before.step.2 closing → closing.CarriesOut .closeFrame →
      closing.step.2.store.frames.depth = before.store.frames.depth →
      closing.step.2.store.frames = before.store.frames ∧
        closing.step.2.store.heap.read before.store.frames.current =
          (before.store.heap.read before.store.frames.current).push
            (.array before.step.2.store.frames.current) := by
  refine ⟨fun machine ref h => h.unaliased hstart.pristine, ?_⟩
  intro before closing hliteral hopen hinside hclose hdepth
  have hunaliased := hliteral.unaliased hstart.pristine
  exact step_closeFrame_of_encloses (hinside.encloses (encloses_openFrame hopen hunaliased)) hclose
    hdepth

/-- Between the brackets a new array is opened with `|`, filled and closed. -/
theorem literal_brackets_around_array :
    let before := (onHeap .empty "a[0>|b]]").step.2
    let closing := before.step.2.step.2.step.2.step.2.step.2.step.2
    closing.store.Unaliased ⟨0⟩ ∧ closing.step.2.store.frames = before.store.frames ∧
      closing.step.2.store.heap.read ⟨0⟩ = (before.store.heap.read ⟨0⟩).push (.array ⟨1⟩) := by
  intro before closing
  have hhosted : Hosted "a[0>|b]]" (onHeap .empty "a[0>|b]]") := .onHeap Heap.closed_empty
  have hliteral : Literal (onHeap .empty "a[0>|b]]") before ⟨0⟩ :=
    .step (.initial (by decide +kernel)) (by decide +kernel)
  have hinside : Inside before.store.frames.depth before.step.2 closing :=
    .step (.step (.step (.step (.step .refl (by decide +kernel)) (by decide +kernel))
      (by decide +kernel)) (by decide +kernel)) (by decide +kernel)
  have hclosing : Literal (onHeap .empty "a[0>|b]]") closing ⟨0⟩ :=
    .step (.step (.step (.step (.step (.step hliteral (by decide +kernel)) (by decide +kernel))
      (by decide +kernel)) (by decide +kernel)) (by decide +kernel)) (by decide +kernel)
  have hopen : before.CarriesOut .openFrame :=
    carriesOut_of_running (by decide +kernel) (by decide +kernel)
  have hclose : closing.CarriesOut .closeFrame :=
    carriesOut_of_running (by decide +kernel) (by decide +kernel)
  have hcurrent : before.store.frames.current = ⟨0⟩ := by decide +kernel
  have hinner : before.step.2.store.frames.current = ⟨1⟩ := by decide +kernel
  obtain ⟨hunaliased, hbrackets⟩ := literal_brackets hhosted
  refine ⟨hunaliased closing ⟨0⟩ hclosing, ?_⟩
  have hresult := hbrackets before closing (hcurrent ▸ hliteral) hopen hinside hclose
    (by decide +kernel)
  rwa [hcurrent, hinner] at hresult

end Machine

end GlyphStack
