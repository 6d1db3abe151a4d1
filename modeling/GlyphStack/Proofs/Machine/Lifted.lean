import GlyphStack.Proofs.Machine.Brackets
import GlyphStack.Proofs.Machine.Lifts
import GlyphStack.Proofs.Machine.Stepping

/-!
Instructions do not look below their operands. A machine whose outermost stack has further values at
its bottom makes the same steps, as long as no unit comes to the bottom of that stack without failing
there. No value may be that stack, and it has to stay the outermost one; this is an invariant of the
run (`Grounded`), which every machine of a host starts with, and which only a `]` that closes the
outermost stack could break.
-/

namespace GlyphStack

open Store

/-! ## 1. The outermost stack -/

/-- The stack is the outermost one, and no value is it. -/
structure Store.Grounded (store : Store) (base : Ref) : Prop where
  unaliased : store.Unaliased base
  outermost : ∃ inner, store.frames.toList = base :: inner

namespace Store.Grounded

variable {base : Ref} {store after : Store} {limits : Limits} {instruction : Instruction}

/-- It is the current stack only while no other one is open. -/
theorem depth_eq_one (h : store.Grounded base) (hcurrent : store.frames.current = base) :
    store.frames.depth = 1 := by
  obtain ⟨inner, hframes⟩ := h.outermost
  cases inner with
  | nil => rw [← Frames.length_toList, hframes, List.length_singleton]
  | cons second rest =>
    have hsplit : store.frames.toList = [base] ++ second :: rest := hframes
    exact absurd hcurrent.symm (h.unaliased.ne_current hsplit List.mem_cons_self)

/-- Units keep it, except for a `]` that closes it. -/
theorem of_effect (h : store.Grounded base) (heffect : Effect limits store instruction after)
    (hlooks : store.looksBelow instruction = false) : after.Grounded base := by
  obtain ⟨inner, hframes⟩ := h.outermost
  have houtermost : ∃ inner, after.frames.toList = base :: inner := by
    rcases heffect.frames_cases with hsame | ⟨-, ref, hopened, -⟩ | ⟨rfl, hclose⟩
    · exact ⟨inner, by rw [hsame, hframes]⟩
    · exact ⟨inner ++ [ref], by simp [hopened, hframes]⟩
    · have hdeep : store.frames.depth ≠ 1 := by simpa [looksBelow] using hlooks
      rcases hclose with hclose | ⟨honly, -⟩
      · rw [Frames.toList_of_closeOne? hclose] at hframes
        cases hafter : after.frames.toList with
        | nil => exact absurd after.frames.current_mem_toList (by simp [hafter])
        | cons first rest =>
          rw [hafter] at hframes
          exact ⟨rest, by rw [(List.cons.inj hframes).1]⟩
      · exact absurd (Frames.closeOne?_eq_none_iff.mp honly) hdeep
  obtain ⟨inner', hframes'⟩ := houtermost
  refine ⟨h.unaliased.of_effect heffect ?_, inner', hframes'⟩
  rw [hframes']
  exact List.mem_cons_self

end Store.Grounded

namespace Machine

/-! ## 2. Steps and runs -/

/-- The machine with further values at the bottom of one stack, and as much more room for every
stack. -/
def lifted (machine : Machine) (base : Ref) (under : Array Value) : Machine :=
  { machine with
    limits := machine.limits.lifted under.size, store := machine.store.lifted base under }

/-- The next unit comes to the bottom of the only stack that is open, and goes on there. -/
def looksBelow (machine : Machine) : Bool :=
  machine.unit?.any machine.store.looksBelow

variable {machine : Machine} {base : Ref} {under : Array Value}

theorem grounded_step (h : machine.store.Grounded base) (hlooks : machine.looksBelow = false) :
    machine.step.2.store.Grounded base := by
  rcases step_effect machine with ⟨-, hstore, -⟩ | ⟨instruction, hunit, heffect, -⟩
  · rw [hstore]
    exact h
  · exact h.of_effect heffect (by simpa [looksBelow, hunit] using hlooks)

/-- A step that does not fail is the same one with further values below. -/
theorem step_lifted (h : machine.store.Grounded base) (hlooks : machine.looksBelow = false)
    (hok : machine.step.1.failure? = none) :
    (machine.lifted base under).step = (machine.step.1, machine.step.2.lifted base under) := by
  obtain ⟨program, limits, store, position, halted⟩ := machine
  cases halted with
  | true => rfl
  | false =>
    cases hrest : program.rest position with
    | nil => simp [lifted, step, hrest]
    | cons first tail =>
      have hlooks' : store.looksBelow (Instruction.ofChar first) = false := by
        simpa [looksBelow, unit?, hrest] using hlooks
      cases hdispatch : dispatch program limits position first tail store with
      | ok next after =>
        have hlifts : Lifts base under (dispatch program limits position first tail store)
            (dispatch program (limits.lifted under.size) position first tail
              (store.lifted base under)) fun _ _ => True :=
          lifts_dispatch program position tail h.unaliased h.depth_eq_one hlooks'
        obtain ⟨-, hdispatch'⟩ := hlifts next after hdispatch
        simp [lifted, step, hrest, hdispatch, hdispatch']
      | error fault after => simp [step, hrest, hdispatch, StepResult.failure?] at hok

theorem grounded_stepped (h : machine.store.Grounded base) {k : Nat}
    (hlooks : ∀ i < k, (machine.stepped i).looksBelow = false) :
    (machine.stepped k).store.Grounded base := by
  induction k with
  | zero => exact h
  | succ k ih =>
    rw [← step_stepped]
    exact grounded_step (ih fun i hi => hlooks i (Nat.lt_succ_of_lt hi))
      (hlooks k (Nat.lt_succ_self k))

/-- As many steps as do not fail lead to the same machine with further values below. -/
theorem stepped_lifted (h : machine.store.Grounded base) {k : Nat}
    (hok : ∀ i < k, (machine.stepped i).step.1.failure? = none)
    (hlooks : ∀ i < k, (machine.stepped i).looksBelow = false) :
    (machine.lifted base under).stepped k = (machine.stepped k).lifted base under := by
  refine stepped_comm (·.lifted base under) fun i hi => ?_
  have hgrounded := grounded_stepped h fun j hj => hlooks j (Nat.lt_trans hj hi)
  exact congrArg Prod.snd (step_lifted hgrounded (hlooks i hi) (hok i hi))

/-- The machine of a host starts out on its only stack. -/
theorem Hosted.grounded {code : String} {start : Machine} (h : Hosted code start)
    (honly : start.store.frames.depth = 1) : start.store.Grounded start.store.frames.current := by
  refine ⟨h.pristine.unaliased _ start.store.frames.current_mem_toList, [], ?_⟩
  have hlength := start.store.frames.length_toList
  rw [honly] at hlength
  obtain ⟨ref, hframes⟩ := List.length_eq_one_iff.mp hlength
  have hmem := start.store.frames.current_mem_toList
  rw [hframes] at hmem ⊢
  rw [List.mem_singleton.mp hmem]

/-- A machine on a longer stack, with as much more room, is the lifted one. -/
theorem prepared_lifted (host : Heap) (code : String) (bindings : Dictionary)
    (stack : Array Value) (limits : Limits) (under : Array Value) :
    prepared host code bindings [under ++ stack] (limits.lifted under.size) =
      (prepared host code bindings [stack] limits).map fun machine =>
        machine.lifted machine.store.frames.current under := by
  have hnesting : (limits.lifted under.size).nesting = limits.nesting := rfl
  rw [prepared_eq, prepared_eq, hnesting]
  cases bindings.snapshot limits.nesting (Store.onHeap host).heap with
  | error fault => rfl
  | ok snapshot =>
    obtain ⟨copies, heap⟩ := snapshot
    refine congrArg Except.ok ?_
    unfold withFrames Store.withFrames allocAll lifted Store.lifted
    dsimp only
    rw [← Heap.lifted_alloc_self]
    rfl

/-- **Instructions do not look below their operands.** A host's machine on one stack with `under`
below its contents, and with room for as many values more on every stack, is the lifted machine of the
one on that stack alone. In as many steps as the latter makes without a failure, and without coming to
the bottom of its outermost stack, the two make the same steps, at the same positions; behind each of
them they have the same open stacks, variables, and texts sent out, and the same contents of every
storage, but for that stack: it holds `under` and then what it holds in the other machine. -/
theorem same_steps_of_lifted (under : Array Value) :
    (∀ host code bindings stack limits,
      prepared host code bindings [under ++ stack] (limits.lifted under.size) =
        (prepared host code bindings [stack] limits).map fun machine =>
          machine.lifted machine.store.frames.current under) ∧
    ∀ code start, Hosted code start → start.store.frames.depth = 1 → ∀ k,
      (∀ i < k, (start.stepped i).step.1.failure? = none) →
      (∀ i < k, (start.stepped i).looksBelow = false) →
      let base := start.store.frames.current
      let longer := start.lifted base under
      (∀ i < k, (longer.stepped i).step.1 = (start.stepped i).step.1) ∧
      ∀ i ≤ k, longer.stepped i = (start.stepped i).lifted base under ∧
        (longer.stepped i).store.heap.read base = under ++ (start.stepped i).store.heap.read base ∧
        ∀ ref, ref ≠ base →
          (longer.stepped i).store.heap.read ref = (start.stepped i).store.heap.read ref := by
  refine ⟨fun host code bindings stack limits =>
    prepared_lifted host code bindings stack limits under, ?_⟩
  intro code start hstart honly k hok hlooks base longer
  have hgrounded (i : Nat) (hi : i ≤ k) : (start.stepped i).store.Grounded base :=
    grounded_stepped (hstart.grounded honly) fun j hj => hlooks j (Nat.lt_of_lt_of_le hj hi)
  have hsame (i : Nat) (hi : i ≤ k) : longer.stepped i = (start.stepped i).lifted base under :=
    stepped_lifted (hstart.grounded honly) (fun j hj => hok j (Nat.lt_of_lt_of_le hj hi))
      fun j hj => hlooks j (Nat.lt_of_lt_of_le hj hi)
  refine ⟨fun i hi => ?_, fun i hi => ?_⟩
  · rw [hsame i (Nat.le_of_lt hi),
      step_lifted (hgrounded i (Nat.le_of_lt hi)) (hlooks i hi) (hok i hi)]
  · rw [hsame i hi]
    exact ⟨rfl, Heap.read_lifted_self (hgrounded i hi).unaliased.there,
      fun ref hne => Heap.read_lifted_of_ne hne⟩

/-- A variable is stored, an array is made, opened and joined with itself, and its text is sent out,
with two values below. -/
theorem same_steps_above_two_values :
    let start := (onHeap .empty "'b'n=_['c]:|'d]+.").withFrames [#[.string "a"]]
    let under := #[.string "x", .absent]
    start.store.frames.depth = 1 ∧ (∀ i < 13, (start.stepped i).step.1.failure? = none) ∧
      (∀ i < 13, (start.stepped i).looksBelow = false) ∧
      ((start.lifted start.store.frames.current under).stepped 13).store.heap.read
          start.store.frames.current =
        under ++ (start.stepped 13).store.heap.read start.store.frames.current := by
  intro start under
  have hhosted : Hosted "'b'n=_['c]:|'d]+." start := .withFrames (.onHeap Heap.closed_empty) (by
    intro items hitems v hv
    cases List.mem_singleton.mp hitems
    cases Array.mem_singleton.mp hv
    exact Value.within_of_kind nofun)
  have honly : start.store.frames.depth = 1 := rfl
  have hok : ∀ i < 13, (start.stepped i).step.1.failure? = none := by
    have hnone : ∀ i < 13, (start.stepped i).step.1.failure?.isNone = true := by decide +kernel
    exact fun i hi => Option.isNone_iff_eq_none.mp (hnone i hi)
  have hlooks : ∀ i < 13, (start.stepped i).looksBelow = false := by decide +kernel
  obtain ⟨-, hsame⟩ := (same_steps_of_lifted under).2 _ start hhosted honly 13 hok hlooks
  exact ⟨honly, hok, hlooks, (hsame 13 (Nat.le_refl 13)).2.1⟩

end Machine

end GlyphStack
