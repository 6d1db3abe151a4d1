import GlyphStack.Proofs.Value.Agreement
import GlyphStack.Proofs.Value.Nesting

/-!
Values that are built alike, each in a heap of its own. What a value is made of shows without the
references of its arrays: the same texts, numbers and absent values at the same places. Which arrays
share a storage does not show, so a value and its deep copy have the same structure, and everything
that is read off the structure is the same for both: the kind, the truth value, the number, the depth,
and the text once it is written out.

Which numbers count as the same is left open. For a copy it is equality. For two values with one text
it is what the text of a number tells.
-/

namespace GlyphStack

namespace Heap

/-- The value in the first heap has the structure of the one in the other heap, where numbers may
differ as `same` allows. -/
inductive SameStructure (same : Float → Float → Prop) (heap other : Heap) :
    Value → Value → Prop where
  | string (text : String) : SameStructure same heap other (.string text) (.string text)
  | number {x y : Float} (h : same x y) : SameStructure same heap other (.number x) (.number y)
  | absent : SameStructure same heap other .absent .absent
  | array {left right : Ref} (hsize : (heap.read left).size = (other.read right).size)
      (hitems : ∀ i (hi : i < (heap.read left).size) (hi' : i < (other.read right).size),
        SameStructure same heap other (heap.read left)[i] (other.read right)[i]) :
      SameStructure same heap other (.array left) (.array right)

namespace SameStructure

variable {same : Float → Float → Prop} {heap other after : Heap} {limit depth : Nat}
  {left right : Ref} {v w : Value}

/-- Arrays have the same structure if their items do, one by one. -/
theorem array_iff : SameStructure same heap other (.array left) (.array right) ↔
    List.Forall₂ (SameStructure same heap other) (heap.read left).toList
      (other.read right).toList := by
  rw [List.forall₂_iff_get]
  constructor
  · intro h
    cases h with
    | array hsize hitems => exact ⟨hsize, fun i hi hi' => hitems i hi hi'⟩
  · rintro ⟨hsize, hitems⟩
    exact .array hsize fun i hi hi' => hitems i hi hi'

/-- A value that is no array has its own structure in every heap. -/
theorem of_kind_ne (hsame : ∀ x, same x x) (h : v.kind ≠ .array) :
    SameStructure same heap other v v := by
  cases v with
  | array => exact absurd rfl h
  | string text => exact .string text
  | number x => exact .number (hsame x)
  | absent => exact .absent

/-- A heap in which the second value reads as before may stand for the other heap. -/
theorem of_agrees {inside : Ref → Prop} (h : SameStructure same heap other v w)
    (hagrees : Agrees inside other after) (hw : w.In inside) : SameStructure same heap after v w := by
  induction h with
  | string text => exact .string text
  | number h => exact .number h
  | absent => exact .absent
  | @array left right hsize hitems ih =>
    have hread : after.read right = other.read right := hagrees.read_eq right (hw right rfl)
    refine .array (by rw [hread, hsize]) fun i hi hi' => ?_
    simp only [hread] at hi' ⊢
    exact ih i hi hi' (hagrees.closed right (hw right rfl) _ (Array.getElem_mem hi'))

theorem forall₂_of_agrees {inside : Ref → Prop} {vs ws : List Value}
    (h : List.Forall₂ (SameStructure same heap other) vs ws) (hagrees : Agrees inside other after)
    (hws : ∀ w ∈ ws, w.In inside) : List.Forall₂ (SameStructure same heap after) vs ws := by
  induction h with
  | nil => exact .nil
  | cons hfirst _ ih =>
    exact .cons (hfirst.of_agrees hagrees (hws _ List.mem_cons_self))
      (ih fun w hw => hws w (List.mem_cons_of_mem _ hw))

theorem kind_eq (h : SameStructure same heap other v w) : w.kind = v.kind := by
  cases h <;> rfl

/-- With equal numbers, a value that is no array has the structure of no value but itself. -/
theorem eq_of_kind_ne (h : SameStructure Eq heap other v w) (hkind : v.kind ≠ .array) : w = v := by
  cases h with
  | string => rfl
  | number h => rw [h]
  | absent => rfl
  | array => exact absurd rfl hkind

theorem isTrue_eq (h : SameStructure Eq heap other v w) : w.isTrue = v.isTrue := by
  rcases v.array_or_kind_ne with ⟨ref, rfl⟩ | hkind
  · cases h
    rfl
  · rw [h.eq_of_kind_ne hkind]

theorem scalarNumber_eq (h : SameStructure Eq heap other v w) : w.scalarNumber = v.scalarNumber := by
  rcases v.array_or_kind_ne with ⟨ref, rfl⟩ | hkind
  · cases h
    rfl
  · rw [h.eq_of_kind_ne hkind]

theorem toNumber_eq (h : SameStructure Eq heap other v w) : other.toNumber w = heap.toNumber v := by
  cases h with
  | number h => exact h.symm
  | string => rfl
  | absent => rfl
  | @array left right hsize hitems =>
    have hall := array_iff.mp (.array hsize hitems)
    simp only [toNumber]
    generalize (heap.read left).toList = items, (other.read right).toList = copies at hall
    cases hall with
    | nil => rfl
    | cons hfirst hrest =>
      cases hrest with
      | nil => exact hfirst.scalarNumber_eq
      | cons => rfl

theorem nestsWithin_iff (h : SameStructure same heap other v w) :
    other.NestsWithin depth w ↔ heap.NestsWithin depth v := by
  induction depth generalizing v w with
  | zero =>
    rcases v.array_or_kind_ne with ⟨ref, rfl⟩ | hkind
    · cases h
      exact iff_of_false not_nestsWithin_zero not_nestsWithin_zero
    · exact iff_of_true (.plain (h.kind_eq ▸ hkind)) (.plain hkind)
  | succ depth ih =>
    rcases v.array_or_kind_ne with ⟨left, rfl⟩ | hkind
    · cases h with
      | @array _ right hsize hitems =>
        rw [nestsWithin_succ_iff, nestsWithin_succ_iff]
        constructor
        · intro h v hv
          obtain ⟨i, hi, rfl⟩ := Array.mem_iff_getElem.mp hv
          exact (ih (hitems i hi (hsize ▸ hi))).mp (h _ (Array.getElem_mem _))
        · intro h w hw
          obtain ⟨i, hi, rfl⟩ := Array.mem_iff_getElem.mp hw
          exact (ih (hitems i (hsize ▸ hi) hi)).mpr (h _ (Array.getElem_mem _))
    · exact iff_of_true (.plain (h.kind_eq ▸ hkind)) (.plain hkind)

/-- Written out to one depth, both values have one text, if their numbers have. -/
theorem writtenOut_eq (hsame : ∀ x y, same x y → Number.text y = Number.text x)
    (h : SameStructure same heap other v w) :
    other.writtenOut depth w = heap.writtenOut depth v := by
  have hplain {v w : Value} {depth : Nat} (h : SameStructure same heap other v w)
      (hkind : v.kind ≠ .array) : other.writtenOut depth w = heap.writtenOut depth v := by
    cases h with
    | string => simp
    | number h => simpa using hsame _ _ h
    | absent => simp
    | array => exact absurd rfl hkind
  induction depth generalizing v w with
  | zero =>
    rcases v.array_or_kind_ne with ⟨ref, rfl⟩ | hkind
    · cases h
      rfl
    · exact hplain h hkind
  | succ depth ih =>
    rcases v.array_or_kind_ne with ⟨left, rfl⟩ | hkind
    · cases h with
      | @array _ right hsize hitems =>
        have htexts : (other.read right).toList.map (other.writtenOut depth) =
            (heap.read left).toList.map (heap.writtenOut depth) := by
          refine List.ext_getElem (by simp [hsize]) fun i hi hi' => ?_
          simp only [List.length_map, Array.length_toList] at hi hi'
          simpa using ih (hitems i hi' hi)
        rw [writtenOut, writtenOut, htexts]
    · exact hplain h hkind

/-- As long as arrays lie no deeper than the limit, both values have one text. -/
theorem render_eq (hsame : ∀ x y, same x y → Number.text y = Number.text x)
    (h : SameStructure same heap other v w) (hnests : heap.NestsWithin limit v) :
    other.render limit w = heap.render limit v := by
  have hnests' : other.NestsWithin limit w := h.nestsWithin_iff.mpr hnests
  have htext : other.renderWithin limit [] w = heap.renderWithin limit [] v := by
    rw [hnests'.renderWithin_eq, hnests.renderWithin_eq, h.writtenOut_eq hsame]
  cases h with
  | string => rfl
  | number => exact congrArg String.ofList htext
  | absent => exact congrArg String.ofList htext
  | array => exact congrArg String.ofList htext

end SameStructure

end Heap

end GlyphStack
