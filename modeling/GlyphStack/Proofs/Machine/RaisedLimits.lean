import GlyphStack.Proofs.Machine.Stepping

/-!
What the limits on stacks and on open stacks change of a run: where it overflows, and nothing else.
Two runs of one program are compared, the second one under limits that are no lower. `Follows` says
of two actions that on every store the second one ends as the first one does, unless the first one
fails with an overflow. It holds of the four actions that look at these limits, and of every other
action and itself, and it is kept where actions follow one another; so it holds of all units.

As long as the first run does not overflow, the two machines are therefore one and the same but for
their limits: with the same stores, also where arrays are shared, for the new arrays of both runs get
the same references. The limit on nesting has to agree. It is not only a limit, since it decides where
the text of an array is cut off.
-/

namespace GlyphStack

open Store

/-! ## 1. Limits -/

/-- The second limits are as wide as the first ones, and texts and comparisons are the same under
both. -/
structure Limits.RaisedTo (limits raised : Limits) : Prop where
  stackSize : limits.stackSize ≤ raised.stackSize
  frameDepth : limits.frameDepth ≤ raised.frameDepth
  nesting : raised.nesting = limits.nesting

/-- The fault is that a stack would grow too long or too many stacks would be open. -/
def Fault.isOverflow : Fault → Bool
  | .stackOverflow _ | .frameOverflow _ => true
  | _ => false

/-! ## 2. Actions -/

/-- On every store the second action ends as the first one does, unless that overflows. -/
def Follows {α : Type} (act raised : Action α) : Prop :=
  ∀ store, raised store = act store ∨
    ∃ fault after, act store = .error fault after ∧ fault.isOverflow = true

namespace Follows

variable {α β : Type} {limits raised : Limits}

theorem refl (act : Action α) : Follows act act := fun _ => .inl rfl

theorem bind {act act' : Action α} {next next' : α → Action β} (h : Follows act act')
    (hnext : ∀ a, Follows (next a) (next' a)) : Follows (act >>= next) (act' >>= next') := by
  intro store
  rcases h store with hsame | ⟨fault, after, herror, hoverflow⟩
  · cases hact : act store with
    | ok a between =>
      rw [Action.bind_of_ok hact, Action.bind_of_ok (hsame.trans hact)]
      exact hnext a between
    | error fault after =>
      rw [Action.bind_of_error hact, Action.bind_of_error (hsame.trans hact)]
      exact .inl rfl
  · exact .inr ⟨fault, after, Action.bind_of_error herror, hoverflow⟩

/-- A check that the second action passes if the first one does, and then both go on alike. -/
theorem guarded {act : Action α} {condition condition' : Prop} [Decidable condition]
    [Decidable condition'] {fault fault' : Fault} (himp : condition → condition')
    (hoverflow : fault.isOverflow = true) :
    Follows (if condition then act else throw fault) (if condition' then act else throw fault') := by
  intro store
  by_cases hcondition : condition
  · rw [if_pos hcondition, if_pos (himp hcondition)]
    exact .inl rfl
  · rw [if_neg hcondition]
    exact .inr ⟨fault, store, rfl, hoverflow⟩

theorem push (h : limits.RaisedTo raised) (v : Value) :
    Follows (Store.push limits v) (Store.push raised v) :=
  (refl get).bind fun _ => guarded (fun hroom => Nat.lt_of_lt_of_le hroom h.stackSize) rfl

theorem pushAll (h : limits.RaisedTo raised) (vs : Array Value) :
    Follows (Store.pushAll limits vs) (Store.pushAll raised vs) :=
  (refl get).bind fun _ => guarded (fun hroom => Nat.le_trans hroom h.stackSize) rfl

theorem openArray (h : limits.RaisedTo raised) (ref : Ref) :
    Follows (Store.openArray limits ref) (Store.openArray raised ref) := by
  intro store
  by_cases hroom : store.frames.depth < limits.frameDepth
  · have hroom' := Nat.lt_of_lt_of_le hroom h.frameDepth
    simp only [Store.openArray, hroom, hroom', if_true]
    exact .inl trivial
  · refine .inr ⟨.frameOverflow limits.frameDepth, store, ?_, rfl⟩
    simp only [Store.openArray, hroom, if_false]

theorem openFrame (h : limits.RaisedTo raised) :
    Follows (Store.openFrame limits) (Store.openFrame raised) := by
  intro store
  rw [openFrame_eq, openFrame_eq]
  by_cases hroom : store.frames.depth < limits.frameDepth
  · rw [if_pos hroom, if_pos (Nat.lt_of_lt_of_le hroom h.frameDepth)]
    exact .inl rfl
  · rw [if_neg hroom]
    exact .inr ⟨_, _, rfl, rfl⟩

theorem closeFrame (h : limits.RaisedTo raised) :
    Follows (Store.closeFrame limits) (Store.closeFrame raised) :=
  (refl dropFrame).bind fun _ => push h _

theorem dup (h : limits.RaisedTo raised) : Follows (Store.dup limits) (Store.dup raised) := by
  refine (refl top?).bind fun v? => ?_
  cases v? with
  | none => exact refl _
  | some v => exact push h v

end Follows

/-! ## 3. Units -/

section Unit

variable {limits raised : Limits}

theorem follows_perform (h : limits.RaisedTo raised) (first : Char) (instruction : Instruction) :
    Follows (perform limits first instruction) (perform raised first instruction) := by
  have hpush (v : Value) := Follows.push h v
  have hsum (a b : Value) : sumOf raised a b = sumOf limits a b := by
    unfold sumOf
    rw [h.nesting]
  have htext (v : Value) : textOf raised v = textOf limits v := by
    unfold textOf
    rw [h.nesting]
  unfold perform
  simp only [hsum, htext, h.nesting]
  cases instruction with
  | add =>
    refine (Follows.refl _).bind fun operands => ?_
    exact (Follows.refl _).bind fun sum => hpush sum
  | arithmetic operator =>
    refine (Follows.refl _).bind fun operands => ?_
    exact (Follows.refl _).bind fun store => hpush _
  | compare =>
    refine (Follows.refl _).bind fun operands => ?_
    refine (Follows.refl _).bind fun store => ?_
    exact (Follows.refl _).bind fun ordering => hpush _
  | not => exact (Follows.refl _).bind fun v => hpush _
  | zero => exact hpush _
  | openFrame => exact .openFrame h
  | openArray => exact (Follows.refl _).bind fun ref => .openArray h ref
  | closeFrame => exact .closeFrame h
  | dup => exact .dup h
  | load =>
    refine (Follows.refl _).bind fun name => ?_
    refine (Follows.refl _).bind fun text => ?_
    exact (Follows.refl _).bind fun v => hpush v
  | gather =>
    refine (Follows.refl _).bind fun v => ?_
    refine (Follows.refl _).bind fun count => ?_
    exact (Follows.refl _).bind fun gathered => hpush gathered
  | spread =>
    refine (Follows.refl _).bind fun ref => ?_
    exact (Follows.refl _).bind fun store => .pushAll h _
  | itemGet =>
    refine (Follows.refl _).bind fun operands => ?_
    refine (Follows.refl _).bind fun index => ?_
    refine (Follows.refl _).bind fun store => ?_
    exact (hpush _).bind fun _ => hpush _
  | itemSet =>
    refine (Follows.refl _).bind fun operands => ?_
    refine (Follows.refl _).bind fun index => ?_
    exact (Follows.refl _).bind fun _ => hpush _
  | itemDelete =>
    refine (Follows.refl _).bind fun operands => ?_
    refine (Follows.refl _).bind fun index => ?_
    exact (Follows.refl _).bind fun _ => hpush _
  | _ => exact .refl _

theorem follows_dispatch (h : limits.RaisedTo raised) (program : Program) (start : Nat)
    (first : Char) (tail : List Char) :
    Follows (dispatch program limits start first tail) (dispatch program raised start first tail) := by
  have hpushed (v : Value) (next : Nat) :
      Follows (do push limits v; return next : Action Nat) (do push raised v; return next) :=
    (Follows.push h v).bind fun _ => .refl _
  unfold dispatch
  dsimp only
  cases Instruction.ofChar first with
  | digits => exact hpushed _ _
  | word => exact hpushed _ _
  | character => exact (Follows.refl _).bind fun c => hpushed _ _
  | text => exact (Follows.refl _).bind fun read => hpushed _ _
  | emit => exact .refl _
  | paren => exact (Follows.refl _).bind fun n => hpushed _ _
  | strayParen => exact .refl _
  | loopHead => exact .refl _
  | loopTail => exact .refl _
  | leave => exact .refl _
  | _ => exact (follows_perform h first _).bind fun _ => .refl _

end Unit

namespace Machine

/-! ## 4. Steps and runs -/

/-- Whether the next step fails with an overflow. -/
def overflows (machine : Machine) : Bool :=
  machine.step.1.failure?.any (·.fault.isOverflow)

/-- A step that does not overflow is the same under raised limits. -/
theorem step_withLimits {machine : Machine} {raised : Limits}
    (h : machine.limits.RaisedTo raised) (hoverflow : machine.overflows = false) :
    (machine.withLimits raised).step = (machine.step.1, machine.step.2.withLimits raised) := by
  obtain ⟨program, limits, store, position, halted⟩ := machine
  cases halted with
  | true => rfl
  | false =>
    cases hrest : program.rest position with
    | nil => simp [withLimits, step, hrest]
    | cons first tail =>
      have hfollows := follows_dispatch h program position first tail store
      cases hdispatch : dispatch program limits position first tail store with
      | ok next after =>
        have hsame : dispatch program raised position first tail store = .ok next after := by
          simpa [hdispatch] using hfollows
        simp [withLimits, step, hrest, hdispatch, hsame]
      | error fault after =>
        have hother : fault.isOverflow = false := by
          simpa [overflows, step, hrest, hdispatch, StepResult.failure?, failureAt,
            Failure.through] using hoverflow
        have hsame : dispatch program raised position first tail store = .error fault after := by
          simpa [hdispatch, hother] using hfollows
        simp [withLimits, step, hrest, hdispatch, hsame]

/-- Runs that do not overflow are the same under raised limits. -/
theorem stepped_withLimits {machine : Machine} {raised : Limits}
    (h : machine.limits.RaisedTo raised) {k : Nat}
    (hoverflow : ∀ i < k, (machine.stepped i).overflows = false) :
    (machine.withLimits raised).stepped k = (machine.stepped k).withLimits raised := by
  refine stepped_comm (·.withLimits raised) fun i hi => ?_
  have hlimits : (machine.stepped i).limits.RaisedTo raised := by
    rwa [(reachable_stepped machine i).program_limits.2]
  exact congrArg Prod.snd (step_withLimits hlimits (hoverflow i hi))

/-- A host's variables are copied under raised limits as they are under the others. -/
theorem prepared_raised {limits raised : Limits} (h : limits.RaisedTo raised) (host : Heap)
    (code : String) (bindings : Dictionary) (contents : List (Array Value)) :
    prepared host code bindings contents raised =
      (prepared host code bindings contents limits).map (·.withLimits raised) := by
  rw [prepared_eq, prepared_eq, h.nesting]
  cases bindings.snapshot limits.nesting (Store.onHeap host).heap <;> rfl

/-- **Raising limits removes overflows and does nothing else.** Under raised limits a program is made
ready for its run as under the lower ones, or fails to be with the same fault. Of any machine under
the lower limits it holds that as many steps as it takes without an overflow are taken under the
raised ones with the same results, failures and their places included, and lead to the same machine
but for the limits: to the same position, and to the same storages, open stacks, variables and texts
sent out. -/
theorem same_runs_of_raised_limits {limits raised : Limits} (h : limits.RaisedTo raised) :
    (∀ host code bindings contents, prepared host code bindings contents raised =
      (prepared host code bindings contents limits).map (·.withLimits raised)) ∧
    ∀ machine : Machine, machine.limits = limits → ∀ k,
      (∀ i < k, (machine.stepped i).overflows = false) →
      (∀ i < k, ((machine.withLimits raised).stepped i).step.1 = (machine.stepped i).step.1) ∧
      (machine.withLimits raised).stepped k = (machine.stepped k).withLimits raised := by
  refine ⟨fun host code bindings contents => prepared_raised h host code bindings contents, ?_⟩
  rintro machine rfl k hoverflow
  refine ⟨fun i hi => ?_, stepped_withLimits h hoverflow⟩
  have hbefore (j : Nat) (hj : j < i) := hoverflow j (Nat.lt_trans hj hi)
  have hlimits : (machine.stepped i).limits.RaisedTo raised := by
    rwa [(reachable_stepped machine i).program_limits.2]
  rw [stepped_withLimits h hbefore, step_withLimits hlimits (hoverflow i hi)]

/-- An array is opened while the stack below holds it, and grows. The two runs part where the last
value finds no room under the lower limit. -/
theorem same_runs_until_overflow :
    let limits : Limits := { stackSize := 3, frameDepth := 2 }
    let raised : Limits := { stackSize := 4, frameDepth := 3 }
    let machine := (onHeap .empty "[a]:|b]c d").withLimits limits
    limits.RaisedTo raised ∧ (∀ i < 9, (machine.stepped i).overflows = false) ∧
      (machine.withLimits raised).stepped 9 = (machine.stepped 9).withLimits raised ∧
      (machine.stepped 9).overflows = true ∧
      ((machine.withLimits raised).stepped 9).overflows = false := by
  intro limits raised machine
  have hraised : limits.RaisedTo raised := ⟨by decide, by decide, rfl⟩
  have hoverflow : ∀ i < 9, (machine.stepped i).overflows = false := by decide +kernel
  exact ⟨hraised, hoverflow, ((same_runs_of_raised_limits hraised).2 machine rfl 9 hoverflow).2,
    by decide +kernel, by decide +kernel⟩

end Machine

end GlyphStack
