import Mathlib.Order.Bounds.Basic
import GlyphStack.Proofs.Program.Sweep

/-!
Parentheses that balance. The end of a literal in parentheses is looked for with a counter of the
parentheses that are open; here it is said by counts alone. The literal ends at the first position
behind its start up to which as many parentheses close as open (`parenClose_eq_ok_iff`).

Everything rests on one invariant (`count_close_lt`): as long as the search goes on, fewer
parentheses have closed than opened, the one at the start included. So no position before the end
balances the start, and what the literal encloses never closes more than it opens. The invariant is
also why the counter may be a number that cannot go below zero: a search that has no answer once it
would have to (`checkedClosingParen`) answers the same.
-/

namespace GlyphStack.Program

/-! ## 1. The counter -/

section Counter

variable {depth n m : Nat} {rest : List Char}

/-- One character: the search ends at it, or it goes on with a counter that has followed the
character and is not zero. -/
theorem closingParen_cons_cases (hdepth : 0 < depth) (c : Char) (rest : List Char) :
    (c = ')' ∧ depth = 1 ∧ closingParen depth (c :: rest) = some 0) ∨
      ∃ next, 0 < next ∧ next + [c].count ')' = depth + [c].count '(' ∧
        closingParen depth (c :: rest) = (closingParen next rest).map (· + 1) := by
  by_cases hopen : c = '('
  · subst hopen
    exact .inr ⟨depth + 1, Nat.succ_pos depth, rfl, rfl⟩
  · by_cases hclose : c = ')'
    · subst hclose
      by_cases hone : depth = 1
      · exact .inl ⟨rfl, hone, by simp [closingParen, hone]⟩
      · refine .inr ⟨depth - 1, by omega, Nat.sub_add_cancel hdepth, ?_⟩
        rw [closingParen, if_neg hopen, if_pos rfl, if_neg (by omega)]
    · refine .inr ⟨depth, hdepth, ?_, ?_⟩
      · rw [List.count_singleton, List.count_singleton, if_neg (by simpa), if_neg (by simpa)]
      · rw [closingParen, if_neg hopen, if_neg hclose]

/-- The invariant of the search: up to where it has come, fewer parentheses have closed than opened,
those included that were open before. -/
theorem count_close_lt (hdepth : 0 < depth) (h : ∀ n, closingParen depth rest = some n → m ≤ n) :
    (rest.take m).count ')' < depth + (rest.take m).count '(' := by
  -- a character that does not end the search leaves a counter for which the invariant holds again
  induction rest generalizing depth m with
  | nil => simpa using hdepth
  | cons c rest ih =>
    cases m with
    | zero => simpa using hdepth
    | succ m =>
      rcases closingParen_cons_cases hdepth c rest with ⟨-, -, hend⟩ | ⟨next, hnext, hcount, hgo⟩
      · exact absurd (h 0 hend) (Nat.not_succ_le_zero m)
      · have hlater := ih hnext fun n hn =>
          Nat.le_of_succ_le_succ (h (n + 1) (by rw [hgo, hn]; rfl))
        rw [List.take_succ_cons, ← List.singleton_append, List.count_append, List.count_append]
        omega

/-- Where the search ends a parenthesis closes, and with it as many have closed as opened. -/
theorem count_close_eq (hdepth : 0 < depth) (h : closingParen depth rest = some n) :
    rest[n]? = some ')' ∧
      (rest.take (n + 1)).count ')' = depth + (rest.take (n + 1)).count '(' := by
  induction rest generalizing depth n with
  | nil => simp [closingParen] at h
  | cons c rest ih =>
    rcases closingParen_cons_cases hdepth c rest with ⟨rfl, rfl, hend⟩ | ⟨next, hnext, hcount, hgo⟩
    · obtain rfl : 0 = n := Option.some.inj (hend.symm.trans h)
      exact ⟨rfl, rfl⟩
    · obtain ⟨m, hm, rfl⟩ := Option.map_eq_some_iff.mp (hgo.symm.trans h)
      obtain ⟨hget, hlater⟩ := ih hnext hm
      refine ⟨hget, ?_⟩
      rw [List.take_succ_cons, ← List.singleton_append, List.count_append, List.count_append]
      omega

/-- The search with a counter that a closing parenthesis takes one off. It ends where the counter
comes to zero, and has no answer where it would have to go below. -/
def checkedClosingParen : (depth : Nat) → List Char → Option (Option Nat)
  | _, [] => some none
  | depth, c :: rest =>
      if c = '(' then (checkedClosingParen (depth + 1) rest).map (Option.map (· + 1))
      else if c = ')' then
        match depth with
        | 0 => none
        | depth + 1 =>
            if depth = 0 then some (some 0)
            else (checkedClosingParen depth rest).map (Option.map (· + 1))
      else (checkedClosingParen depth rest).map (Option.map (· + 1))

/-- With a parenthesis open the counter never has to go below zero. -/
theorem checkedClosingParen_eq (hdepth : 0 < depth) (rest : List Char) :
    checkedClosingParen depth rest = some (closingParen depth rest) := by
  fun_induction checkedClosingParen depth rest with
  | case1 => rfl
  | case2 depth rest ih => simp [closingParen, ih (Nat.succ_pos depth)]
  | case3 => contradiction
  | case4 => simp [closingParen]
  | case5 rest depth hpos _ ih => simp [closingParen, hpos, ih (Nat.pos_of_ne_zero hpos)]
  | case6 depth c rest hopen hclose ih => simp [closingParen, hopen, hclose, ih hdepth]

end Counter

/-! ## 2. Positions of the text -/

section

variable {text : List Char} {start n m : Nat}

/-- The positions behind `start` up to which, both included, as many parentheses close as open. -/
def balancing (text : List Char) (start : Nat) : Set Nat :=
  {stop | start < stop ∧ stop < text.length ∧
    (text.extract start (stop + 1)).count '(' = (text.extract start (stop + 1)).count ')'}

/-- The search behind an opening parenthesis starts with this one open. -/
theorem parenClose_eq (hopening : text[start]? = some '(') :
    parenClose (text.drop start) =
      match closingParen 1 (text.drop (start + 1)) with
      | some m => .ok (m + 1)
      | none => .error .openParen := by
  rw [drop_of_getElem? hopening, parenClose, closingParen, if_pos rfl]
  cases closingParen 1 (text.drop (start + 1)) <;> rfl

theorem exists_closingParen (hopening : text[start]? = some '(')
    (h : parenClose (text.drop start) = .ok n) :
    ∃ m, closingParen 1 (text.drop (start + 1)) = some m ∧ n = m + 1 := by
  rw [parenClose_eq hopening] at h
  split at h
  · rename_i m hfound
    exact ⟨m, hfound, (Except.ok.inj h).symm⟩
  · contradiction

/-- The characters up to a position behind an opening parenthesis are this one and the first ones
behind it. -/
theorem extract_of_opening (hopening : text[start]? = some '(') (m : Nat) :
    text.extract start (start + (m + 1)) = '(' :: (text.drop (start + 1)).take m := by
  rw [List.extract_eq_take_drop, drop_of_getElem? hopening, Nat.add_sub_cancel_left,
    List.take_succ_cons]

theorem mem_balancing_iff (hopening : text[start]? = some '(') :
    start + (m + 1) ∈ balancing text start ↔
      start + (m + 1) < text.length ∧
        1 + ((text.drop (start + 1)).take (m + 1)).count '(' =
          ((text.drop (start + 1)).take (m + 1)).count ')' := by
  have hopened : (text.extract start (start + (m + 1) + 1)).count '(' =
      1 + ((text.drop (start + 1)).take (m + 1)).count '(' := by
    rw [Nat.add_assoc start, extract_of_opening hopening, List.count_cons_self, Nat.add_comm]
  have hclosed : (text.extract start (start + (m + 1) + 1)).count ')' =
      ((text.drop (start + 1)).take (m + 1)).count ')' := by
    rw [Nat.add_assoc start, extract_of_opening hopening, List.count_cons_of_ne (by decide)]
  rw [← hopened, ← hclosed]
  exact and_iff_right (by omega)

/-- While the search goes on no position balances the opening parenthesis. -/
theorem not_mem_balancing (hopening : text[start]? = some '(')
    (h : ∀ n, closingParen 1 (text.drop (start + 1)) = some n → m < n) :
    start + (m + 1) ∉ balancing text start := by
  intro hmem
  have hlt := count_close_lt (m := m + 1) Nat.one_pos h
  have heven := ((mem_balancing_iff hopening).mp hmem).2
  omega

theorem isLeast_balancing (hopening : text[start]? = some '(')
    (h : closingParen 1 (text.drop (start + 1)) = some m) :
    IsLeast (balancing text start) (start + (m + 1)) := by
  constructor
  · have hlt := closingParen_lt _ _ h
    rw [List.length_drop] at hlt
    exact (mem_balancing_iff hopening).mpr ⟨by omega, (count_close_eq Nat.one_pos h).2.symm⟩
  · intro stop hstop
    by_contra hless
    obtain ⟨k, rfl⟩ := Nat.exists_eq_add_of_lt hstop.1
    refine not_mem_balancing hopening (fun n hn => ?_) hstop
    obtain rfl : m = n := Option.some.inj (h.symm.trans hn)
    omega

/-- The end of a literal in parentheses is the first position that balances its start. -/
theorem parenClose_eq_ok_iff (hopening : text[start]? = some '(') :
    parenClose (text.drop start) = .ok n ↔ IsLeast (balancing text start) (start + n) := by
  rw [parenClose_eq hopening]
  cases hfound : closingParen 1 (text.drop (start + 1)) with
  | none =>
    refine iff_of_false (by simp) fun hleast => ?_
    obtain ⟨k, hk⟩ := Nat.exists_eq_add_of_lt hleast.1.1
    rw [hk] at hleast
    exact not_mem_balancing hopening (by simp [hfound]) hleast.1
  | some m =>
    have hleast := isLeast_balancing hopening hfound
    constructor
    · rintro ⟨⟩
      exact hleast
    · intro hother
      obtain rfl : n = m + 1 := Nat.add_left_cancel (hother.unique hleast)
      rfl

/-- A literal ends with a parenthesis that closes. -/
theorem getElem?_parenClose (hopening : text[start]? = some '(')
    (h : parenClose (text.drop start) = .ok n) : text[start + n]? = some ')' := by
  obtain ⟨m, hfound, rfl⟩ := exists_closingParen hopening h
  rw [← Nat.add_assoc, Nat.add_right_comm, ← List.getElem?_drop]
  exact (count_close_eq Nat.one_pos hfound).1

/-- No part at the start of what a literal encloses closes more parentheses than it opens. -/
theorem count_close_le_of_enclosed (hopening : text[start]? = some '(')
    (h : parenClose (text.drop start) = .ok n) {inner : List Char}
    (hinner : inner <+: text.extract (start + 1) (start + n)) :
    inner.count ')' ≤ inner.count '(' := by
  obtain ⟨m, hfound, rfl⟩ := exists_closingParen hopening h
  rw [List.extract_eq_take_drop, show start + (m + 1) - (start + 1) = m by omega,
    List.prefix_iff_eq_take, List.take_take] at hinner
  have hbefore (n : Nat) (hn : closingParen 1 (text.drop (start + 1)) = some n) :
      min inner.length m ≤ n := by
    obtain rfl : m = n := Option.some.inj (hfound.symm.trans hn)
    exact Nat.min_le_right _ _
  have hlt := count_close_lt Nat.one_pos hbefore
  rw [← hinner] at hlt
  omega

/-- The only fault of a literal is that its parenthesis is open. -/
theorem parenClose_eq_error {rest : List Char} {fault : Malformation}
    (h : parenClose rest = .error fault) : fault = .openParen := by
  unfold parenClose at h
  split at h
  · contradiction
  · exact (Except.error.inj h).symm

end

/-! ## 3. Literals in a program -/

/-- **A literal in parentheses ends at the first position that balances its start.** A parenthesis
opens at position `start`. Its literal ends `n` characters on exactly if that is the first position
behind `start` up to which as many parentheses close as open. There a parenthesis closes, and what
stands between the two opens, up to each of its characters, at least as many parentheses as it
closes. If no position balances the start the literal is open, which is a fault at `start`. The
counter that the end is found with is never taken below zero: the search that has no answer then has
the same one. -/
theorem parenClose_balances {text : List Char} {start : Fin text.length}
    (hopening : text.get start = '(') :
    (∀ n, parenClose (text.drop start) = .ok n ↔ IsLeast (balancing text start) (start + n)) ∧
    (∀ n, parenClose (text.drop start) = .ok n → text[start + n]? = some ')' ∧
      ∀ inner, inner <+: text.extract (start + 1) (start + n) →
        inner.count ')' ≤ inner.count '(') ∧
    (balancing text start = ∅ → ∃ fault, parenClose (text.drop start) = .error fault ∧
      fault.message = "unterminated ( literal" ∧
      unitEnd text start = .error (.misread start (.literal fault))) ∧
    checkedClosingParen 0 (text.drop start) = some (parenClose (text.drop start)).toOption := by
  have hget : text[(start : Nat)]? = some '(' := by
    rw [List.getElem?_eq_getElem start.isLt]
    exact congrArg some hopening
  refine ⟨fun n => parenClose_eq_ok_iff hget, fun n h => ⟨getElem?_parenClose hget h, fun inner =>
    count_close_le_of_enclosed hget h⟩, fun hnone => ?_, ?_⟩
  · cases hread : parenClose (text.drop start) with
    | ok n =>
      have hmem := ((parenClose_eq_ok_iff hget).mp hread).1
      rw [hnone] at hmem
      contradiction
    | error fault =>
      obtain rfl := parenClose_eq_error hread
      refine ⟨.openParen, rfl, rfl, unitEnd_eq_error_iff.mpr ⟨.openParen, ?_, rfl⟩⟩
      have hhead : text[start] = '(' := hopening
      rw [drop_of_getElem? hget] at hread
      rw [hhead]
      exact hread
  · rw [parenClose_eq hget, drop_of_getElem? hget, checkedClosingParen, if_pos rfl,
      checkedClosingParen_eq Nat.one_pos]
    cases closingParen 1 (text.drop (start + 1)) <;> rfl

/-- The parenthesis at 1 is balanced at 8, behind two others that are balanced before; the one at 9
is open. -/
theorem parenClose_of_nested :
    let text := "x(a(b)())(c".toList
    parenClose (text.drop 1) = .ok 7 ∧
      unitEnd text ⟨9, by decide⟩ = .error (.misread 9 (.literal .openParen)) := by
  intro text
  let first : Fin text.length := ⟨1, by decide⟩
  let last : Fin text.length := ⟨9, by decide⟩
  have hfirst : text.get first = '(' := rfl
  have hlast : text.get last = '(' := rfl
  have hleast : IsLeast (balancing text first) 8 := by
    refine ⟨⟨by decide, by decide, by decide⟩, fun stop hstop => ?_⟩
    have huneven : ∀ stop < 8, 1 < stop → (text.extract 1 (stop + 1)).count '(' ≠
        (text.extract 1 (stop + 1)).count ')' := by decide
    by_contra hlt
    exact huneven stop (by omega) hstop.1 hstop.2.2
  have hnone : balancing text last = ∅ := by
    refine Set.eq_empty_of_forall_notMem fun stop hstop => ?_
    have huneven : ∀ stop < text.length, 9 < stop → (text.extract 9 (stop + 1)).count '(' ≠
        (text.extract 9 (stop + 1)).count ')' := by decide
    exact huneven stop hstop.2.1 hstop.1 hstop.2.2
  obtain ⟨_, hread, -, hfault⟩ := (parenClose_balances hlast).2.2.1 hnone
  obtain rfl := parenClose_eq_error hread
  exact ⟨((parenClose_balances hfirst).1 7).mpr hleast, hfault⟩

end GlyphStack.Program
