import Mathlib.Tactic.SplitIfs
import GlyphStack.Machine.Run
import GlyphStack.Proofs.Program.Sweep

/-!
What one unit does, said once for all instructions. A unit that is no brace and no loop exit is read
as `unitTail` reads it: if it cannot be read, `dispatch` fails with that fault and touches nothing
(`dispatch_misread`), and otherwise it carries out one action on the store and goes on behind the
unit (`dispatch_plain`). `PlainAction` lists what that action can be. The braces and the loop exit
have one equation each.
-/

namespace GlyphStack

open Store

/-! ## 1. Actions one after the other -/

namespace Action

variable {α β : Type}

/-- An action in two parts answers what the second part answers in the store of the first. -/
theorem bind_eq_ok_iff {act : Action α} {next : α → Action β} {store after : Store} {b : β} :
    (act >>= next) store = .ok b after ↔
      ∃ a between, act store = .ok a between ∧ next a between = .ok b after := by
  show EStateM.bind act next store = _ ↔ _
  unfold EStateM.bind
  cases act store <;> simp

theorem bind_of_ok {act : Action α} {next : α → Action β} {store between : Store} {a : α}
    (h : act store = .ok a between) : (act >>= next) store = next a between := by
  show EStateM.bind act next store = _
  unfold EStateM.bind
  rw [h]

theorem bind_of_error {act : Action α} {next : α → Action β} {store after : Store} {fault : Fault}
    (h : act store = .error fault after) : (act >>= next) store = .error fault after := by
  show EStateM.bind act next store = _
  unfold EStateM.bind
  rw [h]

/-- It fails where its first part fails, or where the second part fails in the store of the first. -/
theorem bind_eq_error_iff {act : Action α} {next : α → Action β} {store after : Store}
    {fault : Fault} :
    (act >>= next) store = .error fault after ↔ act store = .error fault after ∨
      ∃ a between, act store = .ok a between ∧ next a between = .error fault after := by
  show EStateM.bind act next store = _ ↔ _
  unfold EStateM.bind
  cases act store <;> simp

theorem liftExcept_ok (a : α) (store : Store) :
    (liftExcept (.ok a : Except Fault α) : Action α) store = .ok a store := rfl

theorem liftExcept_error (fault : Fault) (store : Store) :
    (liftExcept (.error fault : Except Fault α) : Action α) store = .error fault store := rfl

/-- A result that is lifted is answered, and the store stays as it is. -/
theorem liftExcept_eq_ok_iff {result : Except Fault α} {store after : Store} {a : α} :
    (liftExcept result : Action α) store = .ok a after ↔ result = .ok a ∧ store = after := by
  cases result <;> simp [liftExcept_ok, liftExcept_error]

theorem liftExcept_eq_error_iff {result : Except Fault α} {store after : Store} {fault : Fault} :
    (liftExcept result : Action α) store = .error fault after ↔
      result = .error fault ∧ store = after := by
  cases result <;> simp [liftExcept_ok, liftExcept_error]

end Action

/-! ## 2. Units and instructions -/

/-- How a unit is read, by its instruction: how many characters belong to it after the first one. -/
def Instruction.tail (first : Char) (rest : List Char) :
    Instruction → Except Malformation Nat
  | .digits => .ok (Program.digitRun rest)
  | .word => .ok (Program.nameRun rest)
  | .character => (Program.character (first :: rest)).map fun _ => 1
  | .text | .emit => (Program.delimited (first :: rest)).map fun (_, n) => n - 1
  | .paren => Program.parenClose (first :: rest)
  | _ => .ok 0

/-- The instruction of a unit decides how it is read. -/
theorem Program.unitTail_eq_tail (first : Char) (rest : List Char) :
    unitTail first rest = (Instruction.ofChar first).tail first rest := by
  unfold Instruction.ofChar
  split_ifs with hdigit hzero halpha
  · subst hzero
    rfl
  · have hne : ∀ c, c.isDigit = false → first ≠ c := by
      rintro c hc rfl
      simp [hc] at hdigit
    simp [unitTail, Instruction.tail, hdigit, hzero, hne '\'' rfl, hne '"' rfl, hne '\x60' rfl,
      hne '(' rfl]
  · have hne : ∀ c, c.isAlpha = false → first ≠ c := by
      rintro c hc rfl
      simp [hc] at halpha
    simp [unitTail, Instruction.tail, hdigit, halpha, hne '\'' rfl, hne '"' rfl, hne '\x60' rfl,
      hne '(' rfl]
  · split
    all_goals
      first
        | rfl
        | simp_all [unitTail, Instruction.tail]

theorem Instruction.isDigit_of_ofChar {first : Char} (h : Instruction.ofChar first = .digits) :
    first.isDigit = true := by
  unfold Instruction.ofChar at h
  split_ifs at h with hdigit
  · exact hdigit
  · split at h <;> simp at h

theorem Instruction.isAlpha_of_ofChar {first : Char} (h : Instruction.ofChar first = .word) :
    first.isAlpha = true := by
  unfold Instruction.ofChar at h
  split_ifs at h with hdigit hzero halpha
  · exact halpha
  · split at h <;> simp at h

theorem Instruction.eq_of_ofChar_strayParen {first : Char}
    (h : Instruction.ofChar first = .strayParen) : first = ')' := by
  unfold Instruction.ofChar at h
  split_ifs at h with hdigit hzero halpha
  split at h <;> simp at h ⊢

/-- Only the braces and the exclamation mark move about in the text. -/
theorem Instruction.isControl_of_ofChar {first : Char}
    (h : Instruction.ofChar first = .loopHead ∨ Instruction.ofChar first = .loopTail ∨
      Instruction.ofChar first = .leave) : Program.IsControl first := by
  unfold Instruction.ofChar at h
  split_ifs at h with hdigit hzero halpha
  · simp at h
  · simp at h
  · simp at h
  · split at h <;> simp [Program.IsControl] at h ⊢

/-! ## 3. Units that do not move about -/

/-- What a unit at position `start` that is no brace and no loop exit may do to a store. -/
inductive PlainAction (limits : Limits) (start : Nat) (first : Char) : Action Unit → Prop where
  /-- A literal puts a value on the stack that is no array. -/
  | push {v : Value} (h : v.kind ≠ .array) : PlainAction limits start first (Store.push limits v)
  /-- A literal is sent out. -/
  | emit (text : String) : PlainAction limits start first (Store.emit text)
  /-- A closing parenthesis closes nothing. -/
  | strayParen (h : first = ')') :
      PlainAction limits start first (throw (.misread start .strayParen))
  /-- A unit of one character is carried out. -/
  | perform : PlainAction limits start first (perform limits first (Instruction.ofChar first))

section Dispatch

variable {program : Program} {limits : Limits} {start : Nat} {first : Char} {tail : List Char}

/-- A unit that cannot be read fails with what is wrong with it, and nothing is touched. -/
theorem dispatch_misread {fault : Malformation} (h : Program.unitTail first tail = .error fault)
    (store : Store) : dispatch program limits start first tail store =
      .error (.misread start (.literal fault)) store := by
  rw [Program.unitTail_eq_tail] at h
  cases hI : Instruction.ofChar first <;> simp only [hI, Instruction.tail, reduceCtorEq] at h <;>
    simp only [dispatch, hI]
  case character =>
    rw [Program.of_map_eq_error h]
    rfl
  case paren =>
    rw [h]
    rfl
  all_goals
    rw [Program.of_map_eq_error h]
    rfl

/-- A unit that is no brace and no loop exit does one thing to the store, and the text is read on
behind it. -/
theorem dispatch_plain {n : Nat} (hc : ¬ Program.IsControl first)
    (h : Program.unitTail first tail = .ok n) : ∃ act, PlainAction limits start first act ∧
      dispatch program limits start first tail = (do act; return start + 1 + n) := by
  have hstop : start + (n + 1) = start + 1 + n := by omega
  have performed (hI : n = 0) :
      (do perform limits first (Instruction.ofChar first); return start + 1 : Action Nat) =
        (do perform limits first (Instruction.ofChar first); return start + 1 + n) := by
    rw [hI, Nat.add_zero]
  rw [Program.unitTail_eq_tail] at h
  cases hI : Instruction.ofChar first <;> simp only [hI, Instruction.tail] at h <;>
    rw [hI] at performed
  case loopHead => exact absurd (Instruction.isControl_of_ofChar (.inl hI)) hc
  case loopTail => exact absurd (Instruction.isControl_of_ofChar (.inr (.inl hI))) hc
  case leave => exact absurd (Instruction.isControl_of_ofChar (.inr (.inr hI))) hc
  case strayParen =>
    refine ⟨_, .strayParen (Instruction.eq_of_ofChar_strayParen hI), ?_⟩
    simp only [dispatch, hI]
    rfl
  case digits =>
    have hrun : Program.digitRun (first :: tail) = n + 1 := by
      simp only [Except.ok.injEq] at h
      simp [Program.digitRun, Instruction.isDigit_of_ofChar hI, ← h]
    let digits := Number.Numeral.spelled ((first :: tail).take (n + 1))
    let x := Number.Numeral.toFloat { negative := false, digits, exponent := 0 }
    refine ⟨_, .push (v := .number x) (by simp [Value.kind]), ?_⟩
    simp only [dispatch, hI, hrun]
    rw [hstop]
  case word =>
    have hrun : Program.nameRun (first :: tail) = n + 1 := by
      have halpha := Instruction.isAlpha_of_ofChar hI
      simp only [Except.ok.injEq] at h
      simp [Program.nameRun, Program.isNameChar, Char.isAlphanum, halpha, ← h]
    let name := Text.lowercase (String.ofList ((first :: tail).take (n + 1)))
    refine ⟨_, .push (v := .string name) (by simp [Value.kind]), ?_⟩
    simp only [dispatch, hI, hrun]
    rw [hstop]
  case character =>
    obtain ⟨c, hc, rfl⟩ := Program.of_map_eq_ok h
    refine ⟨_, .push (v := .string (String.singleton c)) (by simp [Value.kind]), ?_⟩
    simp only [dispatch, hI, hc]
    rfl
  case text =>
    obtain ⟨text, hdelimited⟩ := Program.delimited_of_tail h
    refine ⟨_, .push (v := .string text) (by simp [Value.kind]), ?_⟩
    simp only [dispatch, hI, hdelimited]
    rw [← hstop]
    rfl
  case emit =>
    obtain ⟨text, hdelimited⟩ := Program.delimited_of_tail h
    refine ⟨_, .emit text, ?_⟩
    simp only [dispatch, hI, hdelimited]
    rw [← hstop]
    rfl
  case paren =>
    refine ⟨_, .push (v := .string (String.ofList (tail.take (n - 1)))) (by simp [Value.kind]), ?_⟩
    simp only [dispatch, hI, h]
    rw [Nat.add_right_comm]
    rfl
  all_goals
    simp only [Except.ok.injEq] at h
    refine ⟨_, .perform, ?_⟩
    simp only [dispatch, hI]
    exact performed h.symm

/-! ## 4. Braces and loop exits -/

theorem dispatch_loopHead : dispatch program limits start '{' tail = (do
    let condition ← popOne "\x7b"
    if condition.isTrue then return start + 1
    else liftExcept (Program.exitFrom program.text (start + 1) 1)) := rfl

theorem dispatch_loopTail : dispatch program limits start '}' tail = (do
    let condition ← popOne "\x7d"
    if condition.isTrue then liftExcept (program.loops.bodyStart start)
    else return start + 1) := rfl

theorem dispatch_leave : dispatch program limits start '!' tail =
    liftExcept (Program.exitFrom program.text (start + Program.leaveRun ('!' :: tail))
      (Program.leaveRun ('!' :: tail))) := rfl

end Dispatch

end GlyphStack
