import GlyphStack.Proofs.Machine.Dispatch

/-!
How an action ends on a given store: with an answer, or with a fault, and a store in either case. A
statement about the end of an action in parts comes from statements about its parts, in the order in
which they act; what is known of the store at each point stays at hand as a hypothesis.
-/

namespace GlyphStack

open Store

/-- An answer and its store are as `post` says, and a fault and its store as `fails` says. -/
def Ends {α : Type} (result : EStateM.Result Fault Store α) (post : α → Store → Prop)
    (fails : Fault → Store → Prop) : Prop :=
  match result with
  | .ok a after => post a after
  | .error fault after => fails fault after

namespace Ends

variable {α β : Type} {store : Store} {post mid : α → Store → Prop} {fails : Fault → Store → Prop}

theorem of_ok {result : EStateM.Result Fault Store α} (h : Ends result post fails) {a : α}
    {after : Store} (hresult : result = .ok a after) : post a after := by
  rw [hresult] at h
  exact h

theorem of_error {result : EStateM.Result Fault Store α} (h : Ends result post fails)
    {fault : Fault} {after : Store} (hresult : result = .error fault after) : fails fault after := by
  rw [hresult] at h
  exact h

/-- Less may be said of the answer. -/
theorem imp {result : EStateM.Result Fault Store α} (h : Ends result mid fails)
    (himp : ∀ a after, mid a after → post a after) : Ends result post fails := by
  cases result with
  | ok a after => exact himp a after h
  | error fault after => exact h

/-- Nothing need be said of the answer. -/
theorem drop {result : EStateM.Result Fault Store α} (h : Ends result post fails) :
    Ends result (fun _ _ => True) fails :=
  h.imp fun _ _ _ => trivial

theorem pure {a : α} (h : post a store) : Ends ((Pure.pure a : Action α) store) post fails := h

theorem throw {fault : Fault} (h : fails fault store) :
    Ends ((throw fault : Action α) store) post fails := h

/-- The second part starts where the first one ended. -/
theorem bind {act : Action α} {next : α → Action β} {post : β → Store → Prop}
    (h : Ends (act store) mid fails)
    (hnext : ∀ a after, mid a after → Ends (next a after) post fails) :
    Ends ((act >>= next) store) post fails := by
  cases hact : act store with
  | ok a after =>
    rw [Action.bind_of_ok hact]
    exact hnext a after (h.of_ok hact)
  | error fault after =>
    rw [Action.bind_of_error hact]
    exact h.of_error hact

theorem get {next : Store → Action α} (h : Ends (next store store) post fails) :
    Ends ((MonadState.get >>= next) store) post fails := h

/-- A part that only reads leaves the store to the next one. -/
theorem reads {act : Action α} {a : α} {next : α → Action β} {post : β → Store → Prop}
    (hact : act store = .ok a store) (h : Ends (next a store) post fails) :
    Ends ((act >>= next) store) post fails := by
  rw [Action.bind_of_ok hact]
  exact h

theorem lift {result : Except Fault α} (hok : ∀ a, result = .ok a → post a store)
    (herror : ∀ fault, result = .error fault → fails fault store) :
    Ends ((liftExcept result : Action α) store) post fails := by
  cases result with
  | ok a => exact hok a rfl
  | error fault => exact herror fault rfl

theorem ite {condition : Prop} [Decidable condition] {act other : Action α}
    (h : condition → Ends (act store) post fails)
    (hother : ¬ condition → Ends (other store) post fails) :
    Ends ((if condition then act else other) store) post fails := by
  by_cases hcondition : condition
  · rw [if_pos hcondition]
    exact h hcondition
  · rw [if_neg hcondition]
    exact hother hcondition

end Ends

end GlyphStack
