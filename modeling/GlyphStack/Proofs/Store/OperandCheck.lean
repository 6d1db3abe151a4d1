import GlyphStack.Proofs.Store.Effect
import GlyphStack.Proofs.Store.Operands

/-!
What taking operands off a stack can end in. There are three ways, and the stack alone decides
between them before anything is taken: every operand is there and meets its expectation, and they
come off; there are too few values; or there are enough and the deepest one that is not what was
expected is named. In the last two everything stays as it was.

`firstMismatch` goes through expectations and operands side by side, the deepest first; section 1
reads it back by places, so that the rest speaks of places in the stack only.
-/

namespace GlyphStack

/-! ## 1. The first mismatch -/

/-- A mismatch is found at a place whose operand is refused after all operands before it passed. -/
theorem of_firstMismatch_eq_some {index place : Nat} {types : List Expected}
    {operands : List Value} {expected : Expected} {v : Value}
    (h : firstMismatch index types operands = some (place, expected, v)) :
    ∃ i, place = index + i ∧ types[i]? = some expected ∧ operands[i]? = some v ∧
      expected.accepts v = false ∧
      ∀ j < i, ∃ earlier w, types[j]? = some earlier ∧ operands[j]? = some w ∧
        earlier.accepts w = true := by
  induction types generalizing index operands with
  | nil => simp [firstMismatch] at h
  | cons first types ih =>
    cases operands with
    | nil => simp [firstMismatch] at h
    | cons w operands =>
      rw [firstMismatch] at h
      split at h
      · rename_i haccepts
        obtain ⟨i, rfl, htype, hoperand, hrefused, hearlier⟩ := ih h
        refine ⟨i + 1, by omega, htype, hoperand, hrefused, fun j hj => ?_⟩
        cases j with
        | zero => exact ⟨first, w, rfl, rfl, haccepts⟩
        | succ j => exact hearlier j (by omega)
      · rename_i hrefused
        cases h
        exact ⟨0, rfl, rfl, rfl, by simpa using hrefused, fun j hj => absurd hj (Nat.not_lt_zero j)⟩

/-! ## 2. Operands by their places -/

section Places

variable {n : Nat} {types : Vector Expected n} {stack : Array Value}

/-- Among the top `n` values of the stack, the deepest being 0, value `i` meets its expectation. -/
def AcceptedAt (types : Vector Expected n) (stack : Array Value) (i : Fin n) : Prop :=
  ∃ v, stack[stack.size - n + i]? = some v ∧ types[i].accepts v = true

/-- There are enough values, and `v`, at place `i` among the top ones, is the deepest of them that
does not meet its expectation. -/
structure FirstMisfit (types : Vector Expected n) (stack : Array Value) (i : Fin n) (v : Value) :
    Prop where
  enough : n ≤ stack.size
  found : stack[stack.size - n + i]? = some v
  refused : types[i].accepts v = false
  deeper : ∀ j < i, AcceptedAt types stack j

/-- Where one value is the misfit no other is. -/
theorem FirstMisfit.unique {i j : Fin n} {v w : Value} (h : FirstMisfit types stack i v)
    (h' : FirstMisfit types stack j w) : i = j ∧ v = w := by
  have not_lt {i j : Fin n} {v w : Value} (h : FirstMisfit types stack i v)
      (h' : FirstMisfit types stack j w) : ¬ i < j := by
    intro hlt
    obtain ⟨u, hfound, haccepts⟩ := h'.deeper i hlt
    rw [h.found, Option.some.injEq] at hfound
    subst hfound
    rw [h.refused] at haccepts
    contradiction
  obtain rfl : i = j := Fin.le_antisymm (Fin.not_lt.mp (not_lt h' h)) (Fin.not_lt.mp (not_lt h h'))
  exact ⟨rfl, Option.some.inj (h.found.symm.trans h'.found)⟩

/-- The misfit is not accepted. -/
theorem FirstMisfit.not_acceptedAt {i : Fin n} {v : Value} (h : FirstMisfit types stack i v) :
    ¬ AcceptedAt types stack i := by
  rintro ⟨w, hfound, haccepts⟩
  rw [h.found, Option.some.injEq] at hfound
  subst hfound
  rw [h.refused] at haccepts
  contradiction

/-- The top values of a stack by their places in it. -/
theorem getElem?_extract_top {i : Nat} (hi : i < n) (enough : n ≤ stack.size) :
    (stack.extract (stack.size - n)).toList[i]? = stack[stack.size - n + i]? := by
  rw [Array.getElem?_toList, Array.getElem?_extract, if_pos (by omega)]

/-- A check of enough operands passes all of them or names the misfit. -/
theorem operandsOf_cases (heap : Heap) (operation : String) (types : Vector Expected n)
    (enough : n ≤ stack.size) :
    (∃ operands, operandsOf heap operation types stack = .ok operands ∧
      ∀ i, AcceptedAt types stack i) ∨
    ∃ i v, FirstMisfit types stack i v ∧ operandsOf heap operation types stack =
      .error (.type operation i types[i] v.kind (heap.render Heap.defaultNesting v)) := by
  have htype {i : Nat} (hi : i < n) : types.toList[i]? = some types[i] := by
    simp [hi]
  cases hmatch : firstMismatch 0 types.toList (stack.extract (stack.size - n)).toList with
  | none =>
    have hchecked : operandsOf heap operation types stack =
        .ok ⟨stack.extract (stack.size - n), by simp only [Array.size_extract]; omega⟩ := by
      simp only [operandsOf, enough, ↓reduceDIte, Vector.toList_mk, hmatch]
    refine .inl ⟨_, hchecked, fun i => ?_⟩
    have hplace : stack.size - n + i < stack.size := by omega
    have haccepts := accepts_of_firstMismatch hmatch (i := i) (by simp) (by simp; omega)
    exact ⟨stack[stack.size - n + i], Array.getElem?_eq_getElem hplace, by simpa using haccepts⟩
  | some found =>
    obtain ⟨place, expected, v⟩ := found
    have hchecked : operandsOf heap operation types stack =
        .error (.type operation place expected v.kind (heap.render Heap.defaultNesting v)) := by
      simp only [operandsOf, enough, ↓reduceDIte, Vector.toList_mk, hmatch]
    obtain ⟨i, rfl, hexpected, hfound, hrefused, hdeeper⟩ := of_firstMismatch_eq_some hmatch
    have hi : i < n := by
      have hlt := (List.getElem?_eq_some_iff.mp hexpected).1
      simpa using hlt
    rw [htype hi, Option.some.injEq] at hexpected
    subst hexpected
    rw [getElem?_extract_top hi enough] at hfound
    have hmisfit : FirstMisfit types stack ⟨i, hi⟩ v := by
      refine ⟨enough, hfound, hrefused, fun j hj => ?_⟩
      obtain ⟨earlier, w, hearlier, hw, haccepts⟩ := hdeeper j hj
      rw [htype j.isLt, Option.some.injEq] at hearlier
      subst hearlier
      rw [getElem?_extract_top j.isLt enough] at hw
      exact ⟨w, hw, haccepts⟩
    refine .inr ⟨⟨i, hi⟩, v, hmisfit, ?_⟩
    rw [hchecked, Nat.zero_add]
    rfl

end Places

/-! ## 3. Taking operands -/

namespace Store

variable {n : Nat} {types : Vector Expected n} {store : Store}

/-- Too few values are left alone. -/
theorem pop_of_lt (operation : String) (types : Vector Expected n) (h : store.stack.size < n) :
    pop operation types store = .error (.arity operation n store.stack.size) store := by
  refine pop_of_error ?_
  rw [operandsOf, dif_neg (Nat.not_le.mpr h)]

/-- Accepted operands come off, and with them behind it the stack is what it was. -/
theorem pop_of_accepted (operation : String) (enough : n ≤ store.stack.size)
    (h : ∀ i, AcceptedAt types store.stack i) :
    ∃ operands, pop operation types store = .ok operands (store.taking n) ∧
      (store.taking n).stack ++ operands.toArray = store.stack := by
  rcases operandsOf_cases store.heap operation types enough with
    ⟨operands, hoperands, -⟩ | ⟨i, v, hmisfit, -⟩
  · obtain ⟨hstack, -⟩ := of_operandsOf hoperands
    refine ⟨operands, pop_of_ok hoperands, ?_⟩
    rcases Nat.lt_or_ge store.frames.current.index store.heap.size with hlt | hge
    · have htaken : (store.taking n).stack = store.stack.shrink (store.stack.size - n) :=
        stack_mapStack _ hlt
      rw [htaken]
      exact hstack.symm
    · -- a stack without a storage is empty, and so is what was taken from it
      have hempty : store.stack = #[] := Heap.read_of_le hge
      have htaken : (store.taking n).stack = #[] :=
        Heap.read_of_le (Nat.le_trans (Nat.le_of_eq (size_heap_mapStack store _)) hge)
      rw [hempty] at hstack
      have hoperands : operands.toArray = #[] := (Array.append_eq_empty_iff.mp hstack.symm).2
      rw [htaken, hoperands, hempty]
      rfl
  · exact absurd (h i) hmisfit.not_acceptedAt

/-- The misfit is named, and nothing comes off. -/
theorem pop_of_firstMisfit (operation : String) {i : Fin n} {v : Value}
    (h : FirstMisfit types store.stack i v) :
    pop operation types store =
      .error (.type operation i types[i] v.kind (store.heap.render Heap.defaultNesting v)) store := by
  rcases operandsOf_cases store.heap operation types h.enough with
    ⟨operands, -, haccepted⟩ | ⟨j, w, hmisfit, herror⟩
  · exact absurd (haccepted i) h.not_acceptedAt
  · obtain ⟨rfl, rfl⟩ := h.unique hmisfit
    exact pop_of_error herror

end Store

end GlyphStack
