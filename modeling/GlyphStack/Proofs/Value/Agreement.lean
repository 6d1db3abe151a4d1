import Mathlib.Data.List.Forall2
import GlyphStack.Proofs.Value.Reversal
import GlyphStack.Value.Arithmetic

/-!
Heaps that agree on some of their storages. The number of a value, its text and the way it compares
are read in the storages that one comes to from the value, and nowhere else. So they are the same on
two heaps that read alike in a set of storages which the items in it do not lead out of. What the
heaps hold besides may be anything.
-/

namespace GlyphStack

/-- If the value is an array, it is one of these. -/
def Value.In (inside : Ref → Prop) (v : Value) : Prop :=
  ∀ ref, v = .array ref → inside ref

namespace Heap

/-- The two heaps read alike inside, and no item there leads out. -/
structure Agrees (inside : Ref → Prop) (heap other : Heap) : Prop where
  read_eq : ∀ ref, inside ref → other.read ref = heap.read ref
  closed : ∀ ref, inside ref → ∀ v ∈ heap.read ref, v.In inside

variable {inside : Ref → Prop} {heap other : Heap} {limit depth : Nat} {a b v : Value}

namespace Agrees

/-! ## 1. Numbers and texts -/

theorem toNumber_eq (h : Agrees inside heap other) (hv : v.In inside) :
    other.toNumber v = heap.toNumber v := by
  cases v with
  | array ref => simp only [toNumber, h.read_eq ref (hv ref rfl)]
  | string => rfl
  | number => rfl
  | absent => rfl

theorem renderWithin_eq (h : Agrees inside heap other) (path : List Ref) (hv : v.In inside) :
    other.renderWithin depth path v = heap.renderWithin depth path v := by
  induction depth generalizing path v with
  | zero => cases v <;> rfl
  | succ depth ih =>
    cases v with
    | array ref =>
      have hitems : (heap.read ref).toList.map (other.renderWithin depth (ref :: path)) =
          (heap.read ref).toList.map (heap.renderWithin depth (ref :: path)) :=
        List.map_congr_left fun v hmem =>
          ih _ (h.closed ref (hv ref rfl) v (Array.mem_toList_iff.mp hmem))
      rw [renderWithin, renderWithin, h.read_eq ref (hv ref rfl), hitems]
    | string => rfl
    | number => rfl
    | absent => rfl

theorem render_eq (h : Agrees inside heap other) (hv : v.In inside) :
    other.render limit v = heap.render limit v :=
  render_eq_of_renderWithin_eq (h.renderWithin_eq [] hv)

/-! ## 2. Two values -/

theorem arithmetic_eq (h : Agrees inside heap other) (operator : Operator) (ha : a.In inside)
    (hb : b.In inside) : other.arithmetic operator a b = heap.arithmetic operator a b := by
  rw [arithmetic, arithmetic, h.toNumber_eq ha, h.toNumber_eq hb]

end Agrees

/-- Lists compare alike if their items do, pair by pair. -/
theorem compareItems_forall₂ {related : Value → Value → Prop}
    {compareItem compareItem' : Value → Value → Except Fault (Option Ordering)}
    {xs xs' ys ys' : List Value} (hxs : List.Forall₂ related xs xs')
    (hys : List.Forall₂ related ys ys')
    (h : ∀ x ∈ xs, ∀ y ∈ ys, ∀ x' y', related x x' → related y y' →
      compareItem' x' y' = compareItem x y) :
    compareItems compareItem' xs' ys' = compareItems compareItem xs ys := by
  induction hxs generalizing ys ys' with
  | nil => cases hys <;> rfl
  | @cons x x' xs xs' hx _ ih =>
    cases hys with
    | nil => rfl
    | @cons y y' ys ys' hy hys =>
      have hrest : compareItems compareItem' xs' ys' = compareItems compareItem xs ys :=
        ih hys fun x hx y hy => h x (List.mem_cons_of_mem _ hx) y (List.mem_cons_of_mem _ hy)
      rw [compareItems, compareItems, h x List.mem_cons_self y List.mem_cons_self x' y' hx hy, hrest]

/-- Lists compare alike where their items do. -/
theorem compareItems_congr
    {compareItem compareItem' : Value → Value → Except Fault (Option Ordering)}
    {xs ys : List Value} (h : ∀ x ∈ xs, ∀ y ∈ ys, compareItem' x y = compareItem x y) :
    compareItems compareItem' xs ys = compareItems compareItem xs ys := by
  have hsame (vs : List Value) : List.Forall₂ Eq vs vs := List.forall₂_same.mpr fun _ _ => rfl
  refine compareItems_forall₂ (hsame xs) (hsame ys) ?_
  rintro x hx y hy _ _ rfl rfl
  exact h x hx y hy

namespace Agrees

theorem compareWithin_eq (h : Agrees inside heap other) (ha : a.In inside) (hb : b.In inside) :
    other.compareWithin limit depth a b = heap.compareWithin limit depth a b := by
  induction depth using Nat.strongRecOn generalizing a b with
  | _ depth ih =>
    rcases compare_cases a b with ⟨hna, hnb⟩ | ⟨left, right, rfl, rfl⟩ | htext
    · rw [compareWithin_of_isNumeric hna hnb, compareWithin_of_isNumeric hna hnb,
        h.toNumber_eq ha, h.toNumber_eq hb]
    · by_cases hsame : left = right
      · rw [hsame, compareWithin_self, compareWithin_self]
      · cases depth with
        | zero => rw [compareWithin_zero hsame, compareWithin_zero hsame]
        | succ depth =>
          have hleft := ha left rfl
          have hright := hb right rfl
          rw [compareWithin_succ hsame, compareWithin_succ hsame, h.read_eq left hleft,
            h.read_eq right hright]
          refine compareItems_congr fun x hx y hy => ih depth (Nat.lt_succ_self depth) ?_ ?_
          · exact h.closed left hleft x (Array.mem_toList_iff.mp hx)
          · exact h.closed right hright y (Array.mem_toList_iff.mp hy)
    · rw [compareWithin_of_byText htext, compareWithin_of_byText htext, h.render_eq ha,
        h.render_eq hb]

theorem compare_eq (h : Agrees inside heap other) (ha : a.In inside) (hb : b.In inside) :
    other.compare limit a b = heap.compare limit a b :=
  h.compareWithin_eq ha hb

end Agrees

end Heap

end GlyphStack
