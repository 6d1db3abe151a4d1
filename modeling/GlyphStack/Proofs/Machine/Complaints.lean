import GlyphStack.Proofs.Machine.Position
import GlyphStack.Proofs.Value.Reversal

/-!
What a run that fails over its program text points at. `Complaint` lists the ways in which a unit can
fail so: it cannot be read, it closes a parenthesis or a loop that nothing opens, no end of a loop is
found for it, or the search for one comes to a unit that cannot be read. In the last two cases the
position that is named need not be the one of the unit: a run of loop exits names its last one, and
the search names the unit that stopped it.

No instruction fails over the text once its unit has been read (`Textless`), so the list is complete
for every unit that starts at a boundary (`complaint_of_dispatch`). Machines stand at boundaries
only. That matters for one entry which is missing: a loop end does not complain of a unit before it
that cannot be read, although the table of loops has an answer for that.
-/

namespace GlyphStack

open Program Store

/-! ## 1. Actions that do not fail over the text -/

/-- The fault is that the program text cannot be read on at some position. -/
def Fault.OfText (fault : Fault) : Prop :=
  ∃ p reason, fault = .misread p reason

/-- On no store does the action fail over the program text. -/
def Textless {α : Type} (act : Action α) : Prop :=
  ∀ store fault after, act store = .error fault after → ¬ fault.OfText

namespace Textless

variable {α β : Type} {limits : Limits}

theorem of_ok {act : Action α} (h : ∀ store, ∃ a after, act store = .ok a after) :
    Textless act := by
  intro store fault after herror
  obtain ⟨a, other, hok⟩ := h store
  rw [hok] at herror
  contradiction

theorem bind {act : Action α} {next : α → Action β} (h : Textless act)
    (hnext : ∀ a, Textless (next a)) : Textless (act >>= next) := by
  intro store fault after herror
  cases hact : act store with
  | ok a between =>
    rw [Action.bind_of_ok hact] at herror
    exact hnext a _ _ _ herror
  | error other between =>
    rw [Action.bind_of_error hact] at herror
    cases herror
    exact h _ _ _ hact

theorem throw {fault : Fault} (h : ¬ fault.OfText) : Textless (throw fault : Action α) := by
  intro store other after herror
  cases herror
  exact h

theorem lift {result : Except Fault α} (h : ∀ fault, result = .error fault → ¬ fault.OfText) :
    Textless (liftExcept result : Action α) := by
  intro store fault after herror
  cases result with
  | ok a => contradiction
  | error other =>
    cases herror
    exact h _ rfl

theorem ite {condition : Prop} [Decidable condition] {act other : Action α} (h : Textless act)
    (hother : Textless other) : Textless (if condition then act else other) := by
  split
  · exact h
  · exact hother

theorem get : Textless (get : Action Store) := of_ok fun _ => ⟨_, _, rfl⟩

/-! ### The actions of instructions -/

theorem push (v : Value) : Textless (Store.push limits v) :=
  get.bind fun _ => ite (of_ok fun _ => ⟨_, _, rfl⟩) (throw (by simp [Fault.OfText]))

theorem pushAll (vs : Array Value) : Textless (Store.pushAll limits vs) :=
  get.bind fun _ => ite (of_ok fun _ => ⟨_, _, rfl⟩) (throw (by simp [Fault.OfText]))

theorem pop {n : Nat} (operation : String) (types : Vector Expected n) :
    Textless (Store.pop operation types) := by
  refine get.bind fun store => (lift fun fault herror => ?_).bind fun _ =>
    of_ok fun _ => ⟨_, _, rfl⟩
  unfold operandsOf at herror
  split at herror
  · dsimp only at herror
    split at herror <;> cases herror
    simp [Fault.OfText]
  · cases herror
    simp [Fault.OfText]

theorem popOne (operation : String) : Textless (popOne operation) :=
  (pop operation _).bind fun _ => of_ok fun _ => ⟨_, _, rfl⟩

theorem popTwo (operation : String) : Textless (popTwo operation) :=
  (pop operation _).bind fun _ => of_ok fun _ => ⟨_, _, rfl⟩

theorem expectArray (operation : String) (v : Value) :
    Textless (liftExcept (v.expectArray operation) : Action Ref) := by
  refine lift fun fault herror => ?_
  cases v <;> cases herror <;> simp [Fault.OfText]

theorem popArray (operation : String) : Textless (popArray operation) :=
  (pop operation _).bind fun _ => expectArray operation _

theorem popArrayIndex (operation : String) : Textless (popArrayIndex operation) :=
  (pop operation _).bind fun _ =>
    (expectArray operation _).bind fun _ => of_ok fun _ => ⟨_, _, rfl⟩

theorem popArrayIndexValue (operation : String) : Textless (popArrayIndexValue operation) :=
  (pop operation _).bind fun _ =>
    (expectArray operation _).bind fun _ => of_ok fun _ => ⟨_, _, rfl⟩

theorem indexInto (ref : Ref) (index : Value) : Textless (indexInto ref index) := by
  by_cases hself : index = .array ref
  · subst hself
    rw [indexInto_self]
    exact throw (by simp [Fault.OfText])
  · rw [indexInto_of_ne hself]
    exact of_ok fun _ => ⟨_, _, rfl⟩

theorem gather (operation : String) (count : Nat) : Textless (Store.gather operation count) := by
  refine get.bind fun store => ite (throw (by simp [Fault.OfText])) ?_
  exact of_ok fun _ => ⟨_, _, rfl⟩

theorem openArray (ref : Ref) : Textless (Store.openArray limits ref) := by
  intro store fault after herror
  unfold Store.openArray at herror
  dsimp only at herror
  split at herror <;> cases herror
  simp [Fault.OfText]

theorem openFrame : Textless (Store.openFrame limits) :=
  get.bind fun _ => ite ((of_ok fun _ => ⟨_, _, rfl⟩).bind fun _ => openArray _)
    (throw (by simp [Fault.OfText]))

theorem closeFrame : Textless (Store.closeFrame limits) := by
  refine Textless.bind (of_ok fun store => ?_) fun _ => push _
  unfold dropFrame
  dsimp only
  split <;> exact ⟨_, _, rfl⟩

theorem dup : Textless (Store.dup limits) := by
  refine Textless.bind (of_ok fun _ => ⟨_, _, rfl⟩) fun v? => ?_
  cases v? with
  | none => exact of_ok fun _ => ⟨_, _, rfl⟩
  | some v => exact push v

/-- Comparing values fails for their nesting only. -/
theorem compare (heap : Heap) (limit : Nat) (a b : Value) :
    Textless (liftExcept (heap.compare limit a b) : Action (Option Ordering)) := by
  refine lift fun fault herror => ?_
  rcases Heap.compareWithin_nesting_or_ok heap limit limit a b with hnesting | ⟨answer, hanswer⟩
  · have h : heap.compare limit a b = .error (.nesting limit) := hnesting
    rw [h] at herror
    cases herror
    simp [Fault.OfText]
  · have h : heap.compare limit a b = .ok answer := hanswer
    rw [h] at herror
    contradiction

/-- No instruction of one character fails over the text. -/
theorem perform (first : Char) (instruction : Instruction) :
    Textless (perform limits first instruction) := by
  cases instruction with
  | add =>
    exact (popTwo _).bind fun _ => (of_ok fun _ => ⟨_, _, rfl⟩).bind fun _ => push _
  | arithmetic operator => exact (popTwo _).bind fun _ => get.bind fun _ => push _
  | compare =>
    exact (popTwo _).bind fun _ => get.bind fun _ => (compare _ _ _ _).bind fun _ => push _
  | not => exact (popOne _).bind fun _ => push _
  | zero => exact push _
  | openFrame => exact openFrame
  | openArray => exact (popArray _).bind fun _ => openArray _
  | closeFrame => exact closeFrame
  | print => exact of_ok fun _ => ⟨_, _, rfl⟩
  | dup => exact dup
  | discard => exact of_ok fun _ => ⟨_, _, rfl⟩
  | store => exact (popOne _).bind fun _ => of_ok fun _ => ⟨_, _, rfl⟩
  | load =>
    exact (popOne _).bind fun _ => (of_ok fun _ => ⟨_, _, rfl⟩).bind fun _ =>
      (of_ok fun _ => ⟨_, _, rfl⟩).bind fun _ => push _
  | gather =>
    exact (popOne _).bind fun _ => (of_ok fun _ => ⟨_, _, rfl⟩).bind fun _ =>
      (gather _ _).bind fun _ => push _
  | spread => exact (popArray _).bind fun _ => get.bind fun _ => pushAll _
  | itemGet =>
    exact (popArrayIndex _).bind fun _ => (of_ok fun _ => ⟨_, _, rfl⟩).bind fun _ =>
      get.bind fun _ => (push _).bind fun _ => push _
  | itemSet =>
    exact (popArrayIndexValue _).bind fun _ => (indexInto _ _).bind fun _ =>
      (of_ok fun _ => ⟨_, _, rfl⟩).bind fun _ => push _
  | itemDelete =>
    exact (popArrayIndex _).bind fun _ => (indexInto _ _).bind fun _ =>
      (of_ok fun _ => ⟨_, _, rfl⟩).bind fun _ => push _
  | call => exact throw (by simp [Fault.OfText])
  | map => exact throw (by simp [Fault.OfText])
  | _ => exact of_ok fun _ => ⟨_, _, rfl⟩

end Textless

/-! ## 2. Complaints -/

/-- The unit at `s` may fail over position `p` of the text for this reason. -/
inductive Complaint (text : List Char) (s : Nat) : (p : Nat) → Misreading → Prop where
  /-- The unit itself cannot be read. -/
  | here {fault : Malformation} (h : MisreadAt text s fault) : Complaint text s s (.literal fault)
  /-- A parenthesis closes nothing. -/
  | strayParen (h : text[s]? = some ')') : Complaint text s s .strayParen
  /-- A loop end is to be repeated and no loop ends there. -/
  | noHead (htail : text[s]? = some '}') (h : ∀ q, ¬ IsLoop text q s) :
      Complaint text s s .noLoopHead
  /-- A loop is to be passed over and does not end. -/
  | noEnd (hhead : text[s]? = some '{') : Complaint text s s .noLoopEnd
  /-- More loops are to be left than end behind a run of exits; its last exit is named. -/
  | noEnds {p : Nat} (hleave : text[s]? = some '!') (hlast : p + 1 = s + leaveRun (text.drop s)) :
      Complaint text s p .noLoopEnd
  /-- The search for the end of a loop comes to a unit that cannot be read. -/
  | ahead {p : Nat} {units : List Lexeme} {fault : Malformation}
      (hcontrol : text[s]? = some '{' ∨ text[s]? = some '!') (hsweep : Sweep text s units p)
      (h : MisreadAt text p fault) : Complaint text s p (.literal fault)

/-- A literal that cannot be read starts with a quote mark, a delimiter or a parenthesis. -/
theorem Program.first_of_unitTail_error {first : Char} {rest : List Char} {fault : Malformation}
    (h : unitTail first rest = .error fault) :
    first = '\'' ∨ first = '"' ∨ first = '\x60' ∨ first = '(' := by
  unfold unitTail at h
  split_ifs at h with hquote htext hparen
  · exact .inl hquote
  · exact .inr (htext.elim .inl fun h => .inr (.inl h))
  · exact .inr (.inr (.inr hparen))

theorem Program.MisreadAt.getElem? {text : List Char} {p : Nat} {fault : Malformation}
    (h : MisreadAt text p fault) : ∃ first, text[p]? = some first ∧
      (first = '\'' ∨ first = '"' ∨ first = '\x60' ∨ first = '(') := by
  obtain ⟨first, rest, hrest, htail⟩ := h
  exact ⟨first, getElem?_of_drop_eq_cons hrest, first_of_unitTail_error htail⟩

/-- A sweep that comes anywhere comes there behind one of its units. -/
theorem Program.Sweep.exists_stop_eq {text : List Char} {p q : Nat} {lexemes : List Lexeme}
    (h : Sweep text p lexemes q) (hne : p ≠ q) : ∃ lexeme ∈ lexemes, lexeme.stop = q := by
  induction h with
  | nil => contradiction
  | @cons p q first rest head tail ih =>
    by_cases hstop : first.stop = q
    · exact ⟨first, List.mem_cons_self, hstop⟩
    · obtain ⟨lexeme, hmem, hlast⟩ := ih hstop
      exact ⟨lexeme, List.mem_cons_of_mem _ hmem, hlast⟩

/-- The last exit of a run is a unit of its own. -/
theorem Program.Boundary.last_of_leaveRun {text : List Char} {s p : Nat} (h : Boundary text s)
    (hle : s ≤ p) (hlast : p + 1 = s + leaveRun (text.drop s)) :
    Boundary text p ∧ text[p]? = some '!' := by
  obtain ⟨lexemes, hsweep, hall⟩ := sweep_leaveRun text s
  obtain ⟨lexeme, hmem, hstop⟩ := hsweep.exists_stop_eq (by omega)
  have hunit := (hsweep.unitAt hmem).1
  have hexit := hall lexeme hmem
  have hone := hunit.stop_eq (.inr (.inr hexit))
  obtain rfl : lexeme.start = p := by omega
  exact ⟨h.of_mem hsweep hmem, by rw [hunit.getElem?, hexit]⟩

/-- What holds of the position that a complaint names. -/
structure PointsAt (text : List Char) (s p : Nat) : Prop where
  le : s ≤ p
  lt : p < text.length
  boundary : Boundary text p
  /-- The character there opens or closes something, or leaves a loop. -/
  mark : ∃ c ∈ [')', '\'', '"', '\x60', '(', '{', '}', '!'], text[p]? = some c
  /-- Only a search for loop ends names another position than its own: that of a unit that it came
  to and that cannot be read, or of the last exit of its run. -/
  elsewhere : p ≠ s → (text[s]? = some '{' ∨ text[s]? = some '!') ∧
    ((∃ fault units, MisreadAt text p fault ∧ Sweep text s units p) ∨
      text[s]? = some '!' ∧ p + 1 = s + leaveRun (text.drop s))

/-- A complaint of a unit at a boundary points at such a position. -/
theorem Complaint.pointsAt {text : List Char} {s p : Nat} {reason : Misreading}
    (hboundary : Boundary text s) (h : Complaint text s p reason) : PointsAt text s p := by
  have hlt {p : Nat} {c : Char} (hget : text[p]? = some c) : p < text.length :=
    (List.getElem?_eq_some_iff.mp hget).1
  -- complaints that name the unit itself
  have hhere {c : Char} (hget : text[s]? = some c)
      (hc : c ∈ [')', '\'', '"', '\x60', '(', '{', '}', '!']) : PointsAt text s s :=
    ⟨Nat.le_refl s, hlt hget, hboundary, ⟨c, hc, hget⟩, fun hne => absurd rfl hne⟩
  cases h with
  | here h =>
    obtain ⟨c, hget, hc⟩ := h.getElem?
    exact hhere hget (by rcases hc with rfl | rfl | rfl | rfl <;> decide)
  | strayParen h => exact hhere h (by decide)
  | noHead htail => exact hhere htail (by decide)
  | noEnd hhead => exact hhere hhead (by decide)
  | noEnds hleave hlast =>
    have hrun : 0 < leaveRun (text.drop s) := by
      rw [drop_of_getElem? hleave, leaveRun_cons, if_pos rfl]
      omega
    have hle : s ≤ p := by omega
    obtain ⟨hlastBoundary, hget⟩ := hboundary.last_of_leaveRun hle hlast
    exact ⟨hle, hlt hget, hlastBoundary, ⟨'!', by decide, hget⟩,
      fun _ => ⟨.inr hleave, .inr ⟨hleave, hlast⟩⟩⟩
  | ahead hcontrol hsweep h =>
    obtain ⟨c, hget, hc⟩ := h.getElem?
    refine ⟨hsweep.le, hlt hget, hboundary.sweep hsweep, ⟨c, ?_, hget⟩,
      fun _ => ⟨hcontrol, .inl ⟨_, _, h, hsweep⟩⟩⟩
    rcases hc with rfl | rfl | rfl | rfl <;> decide

/-! ## 3. Units -/

/-- The search for loop ends fails where it came to a unit that cannot be read, or at the end of the
text, and then it names the position before the one it started from. -/
theorem Program.exitFrom_eq_error {text : List Char} {start depth p : Nat} {reason : Misreading}
    (h : exitFrom text start depth = .error (.misread p reason)) :
    (∃ fault units, reason = .literal fault ∧ MisreadAt text p fault ∧
      Sweep text start units p) ∨ reason = .noLoopEnd ∧ p = start - 1 := by
  obtain ⟨stop, hsweep, hend⟩ := sweep_lexFrom text start
  unfold exitFrom at h
  split_ifs at h
  dsimp only at h
  split at h
  · contradiction
  · rename_i position fault _ hstopped
    cases h
    rcases hend with ⟨-, hnone⟩ | ⟨fault', hmisread, hsome⟩
    · rw [hnone] at hstopped
      contradiction
    · rw [hsome] at hstopped
      cases hstopped
      exact .inl ⟨fault, _, rfl, hmisread, hsweep⟩
  · cases h
    exact .inr ⟨rfl, rfl⟩

section Units

variable {program : Program} {limits : Limits} {s p : Nat} {tail : List Char}
  {store after : Store} {reason : Misreading}

/-- The head of a loop fails over a unit that its end is looked for at, or there is no end. -/
theorem complaint_of_loopHead (hrest : program.text.drop s = '{' :: tail)
    (h : dispatch program limits s '{' tail store = .error (.misread p reason) after) :
    Complaint program.text s p reason := by
  have hget := getElem?_of_drop_eq_cons hrest
  rw [dispatch_loopHead] at h
  obtain hpop | ⟨condition, between, -, h⟩ := Action.bind_eq_error_iff.mp h
  · exact absurd ⟨p, reason, rfl⟩ (Textless.popOne _ _ _ _ hpop)
  · split at h
    · contradiction
    · obtain ⟨fault, units, rfl, hp, hsweep⟩ | ⟨rfl, rfl⟩ :=
        exitFrom_eq_error (Action.liftExcept_eq_error_iff.mp h).1
      · exact .ahead (.inl hget) (.cons (.of_getElem? hget (.inl rfl)) hsweep) hp
      · exact .noEnd hget

/-- The end of a loop fails if it has no head. -/
theorem complaint_of_loopTail (hboundary : Boundary program.text s)
    (hrest : program.text.drop s = '}' :: tail)
    (h : dispatch program limits s '}' tail store = .error (.misread p reason) after) :
    Complaint program.text s p reason := by
  rw [dispatch_loopTail] at h
  obtain hpop | ⟨condition, between, -, h⟩ := Action.bind_eq_error_iff.mp h
  · exact absurd ⟨p, reason, rfl⟩ (Textless.popOne _ _ _ _ hpop)
  · split at h
    · rw [program.loops_eq] at h
      have hbody := (Action.liftExcept_eq_error_iff.mp h).1
      obtain ⟨q, -, hok⟩ | ⟨hnone, herror⟩ := bodyStart_cases hboundary
      · rw [hok] at hbody
        contradiction
      · rw [herror] at hbody
        cases hbody
        exact .noHead (getElem?_of_drop_eq_cons hrest) hnone
    · contradiction

/-- A run of exits fails like the head of a loop, from its end on. -/
theorem complaint_of_leave (hrest : program.text.drop s = '!' :: tail)
    (h : dispatch program limits s '!' tail store = .error (.misread p reason) after) :
    Complaint program.text s p reason := by
  have hget := getElem?_of_drop_eq_cons hrest
  rw [dispatch_leave, ← hrest] at h
  obtain ⟨exits, hexits, -⟩ := sweep_leaveRun program.text s
  obtain ⟨fault, units, rfl, hp, hsweep⟩ | ⟨rfl, rfl⟩ :=
    exitFrom_eq_error (Action.liftExcept_eq_error_iff.mp h).1
  · exact .ahead (.inr hget) (hexits.append hsweep) hp
  · refine .noEnds hget ?_
    have hrun : 0 < leaveRun (program.text.drop s) := by
      rw [hrest, leaveRun_cons, if_pos rfl]
      omega
    omega

/-- Any other unit fails over the text only if it cannot be read. -/
theorem complaint_of_plain {first : Char} (hcontrol : ¬ IsControl first)
    (hrest : program.text.drop s = first :: tail)
    (h : dispatch program limits s first tail store = .error (.misread p reason) after) :
    Complaint program.text s p reason := by
  have hmisread : Fault.OfText (.misread p reason) := ⟨p, reason, rfl⟩
  cases hread : unitTail first tail with
  | error fault =>
    rw [dispatch_misread hread] at h
    cases h
    exact .here ⟨first, tail, hrest, hread⟩
  | ok n =>
    obtain ⟨act, hplain, hact⟩ : ∃ act, PlainAction limits s first act ∧
        dispatch program limits s first tail = (do act; return s + 1 + n) :=
      dispatch_plain hcontrol hread
    rw [hact] at h
    obtain hfault | ⟨_, between, -, h⟩ := Action.bind_eq_error_iff.mp h
    · cases hplain with
      | push => exact absurd hmisread (Textless.push _ _ _ _ hfault)
      | emit text => contradiction
      | strayParen hfirst =>
        subst hfirst
        cases hfault
        exact .strayParen (getElem?_of_drop_eq_cons hrest)
      | perform => exact absurd hmisread (Textless.perform _ _ _ _ _ hfault)
    · contradiction

/-- A unit at a boundary that fails over the text has one of the complaints. -/
theorem complaint_of_dispatch {first : Char} (hboundary : Boundary program.text s)
    (hrest : program.text.drop s = first :: tail)
    (h : dispatch program limits s first tail store = .error (.misread p reason) after) :
    Complaint program.text s p reason := by
  by_cases hcontrol : IsControl first
  · rcases hcontrol with rfl | rfl | rfl
    · exact complaint_of_loopHead hrest h
    · exact complaint_of_loopTail hboundary hrest h
    · exact complaint_of_leave hrest h
  · exact complaint_of_plain hcontrol hrest h

end Units

/-! ## 4. Machines -/

namespace Machine

/-- A step of a machine at a boundary that fails over the text has one of the complaints. -/
theorem complaint_of_step {machine : Machine} {failure : Failure} {p : Nat} {reason : Misreading}
    (hboundary : Boundary machine.program.text machine.position)
    (h : machine.step.1 = .failed failure) (hfault : failure.fault = .misread p reason) :
    Complaint machine.program.text machine.position p reason := by
  rcases step_cases machine with ⟨-, hstep⟩ | ⟨-, -, hstep⟩ | ⟨_, _, -, hstep⟩ |
    ⟨fault, store, hcarries, hstep⟩
  · simp [hstep] at h
  · simp [hstep] at h
  · simp [hstep] at h
  · rw [hstep] at h
    cases h
    obtain ⟨first, tail, hrest, hdispatch⟩ := hcarries.dispatch
    obtain rfl : fault = .misread p reason := hfault
    exact complaint_of_dispatch hboundary hrest hdispatch

/-- A step that fails leaves the machine where it is. -/
theorem position_of_failed {machine after : Machine} {failure : Failure}
    (h : machine.step = (.failed failure, after)) : after.position = machine.position := by
  rcases step_cases machine with ⟨-, hstep⟩ | ⟨-, -, hstep⟩ | ⟨_, _, -, hstep⟩ | ⟨_, _, -, hstep⟩ <;>
    rw [hstep] at h <;> cases h
  rfl

/-- **What a failure over the text points at.** Where a machine that was built for a text fails over
it, be it in a step or in the last step of a run or of a run within a budget, the position that the
failure names is a boundary of units within the text, not before the unit that fails; the character
there is a parenthesis, a brace, a quote mark, a delimiter or a loop exit. Another position than its
own is named by a loop head or a run of exits only: the start of a unit that cannot be read, which the
search for a loop end came to, or the last exit of the run. -/
theorem pointsAt_of_failed {code : String} {start machine : Machine} (hstart : Built code start)
    (h : Reachable start machine) :
    (∀ failure p reason, machine.step.1 = .failed failure → failure.fault = .misread p reason →
      PointsAt code.toList machine.position p) ∧
    (∀ fuel failure after p reason, machine.run? fuel = some (.error failure, after) →
      failure.fault = .misread p reason →
      ∃ last, Reachable machine last ∧ last.step = (.failed failure, after) ∧
        after.position = last.position ∧ PointsAt code.toList last.position p) ∧
    ∀ budget failure after p reason, machine.runWithBudget budget = (.error failure, after) →
      failure.fault = .misread p reason →
      ∃ last, Reachable machine last ∧ last.step = (.failed failure, after) ∧
        after.position = last.position ∧ PointsAt code.toList last.position p := by
  have hsteps {machine : Machine} (h : Reachable start machine) {failure : Failure} {p : Nat}
      {reason : Misreading} (hfailed : machine.step.1 = .failed failure)
      (hfault : failure.fault = .misread p reason) : PointsAt code.toList machine.position p := by
    have hboundary := boundary_of_reachable hstart h
    rw [← hstart.text_eq h] at hboundary ⊢
    exact (complaint_of_step hboundary hfailed hfault).pointsAt hboundary
  have hlast {last after : Machine} (hreach : Reachable machine last) {failure : Failure} {p : Nat}
      {reason : Misreading} (hfailed : last.step = (.failed failure, after))
      (hfault : failure.fault = .misread p reason) :
      ∃ last, Reachable machine last ∧ last.step = (.failed failure, after) ∧
        after.position = last.position ∧ PointsAt code.toList last.position p :=
    ⟨last, hreach, hfailed, position_of_failed hfailed,
      hsteps (h.trans hreach) (congrArg Prod.fst hfailed) hfault⟩
  refine ⟨fun failure p reason => hsteps h, ?_, ?_⟩
  · intro fuel failure after p reason hrun hfault
    obtain ⟨last, hreach, hfailed⟩ := exists_step_of_run? hrun
    exact hlast hreach hfailed hfault
  · intro budget failure after p reason hrun hfault
    obtain ⟨last, hreach, hfailed⟩ | hbudget := exists_step_of_runWithBudget hrun
    · exact hlast hreach hfailed hfault
    · rw [hbudget] at hfault
      contradiction

/-- Behind a loop head with a false condition a parenthesis is not closed, and the run fails over
that one. -/
theorem pointsAt_behind_loop_head :
    let start := onHeap .empty "0\x7b!("
    ∃ failure after, start.run? 5 = some (.error failure, after) ∧
      failure.fault = .misread 3 (.literal .openParen) ∧ after.position = 1 ∧
        PointsAt "0\x7b!(".toList 1 3 := by
  intro start
  have hfault : ((start.run? 5).map fun run => (run.1.mapError Failure.fault, run.2.position)) =
      some (.error (.misread 3 (.literal .openParen)), 1) := by decide +kernel
  obtain ⟨⟨result, after⟩, hrun, hresult⟩ := Option.map_eq_some_iff.mp hfault
  obtain ⟨hfailure, hposition⟩ := Prod.mk.inj hresult
  cases result with
  | ok => contradiction
  | error failure =>
    have hfault := Except.error.inj hfailure
    obtain ⟨last, -, -, hlast, hpoints⟩ :=
      (pointsAt_of_failed (.onHeap .empty) .refl).2.1 5 failure after _ _ hrun hfault
    rw [← hlast, hposition] at hpoints
    exact ⟨failure, after, hrun, hfault, hposition, hpoints⟩

end Machine

end GlyphStack
