import Mathlib.Data.Set.Card
import GlyphStack.Proofs.Store.PrivateCopies

/-!
Texts of arrays that lie in themselves. An array is cut off for one of two reasons: no more arrays may
be opened, or it is one of those around it. The first reason is only for arrays that lie deep. The
arrays around an item are all different, because none is opened a second time inside itself, and one
comes to all of them from the value. So there are no more of them than storages that one comes to, and
a limit that is no less than this number is never met: an array that is cut off then is one of those
around it (`writtenInside_renderWithin`).

The text is therefore the one that needs no limit (`WrittenInside`), the same for all limits that are
high enough. What is counted down on the way into the arrays are the storages ahead: those that one
comes to from the item and that are not around it (`ahead`).
-/

namespace GlyphStack.Heap

variable {heap : Heap} {limit depth : Nat} {path : List Ref} {ref : Ref} {v : Value}

/-! ## 1. Texts without a limit -/

/-- The text of a value inside the arrays of the path, innermost first: an array that is one of those
around it is cut off, and any other array is written out, however deep it lies. -/
inductive WrittenInside (heap : Heap) : (path : List Ref) → Value → List Char → Prop where
  | string (path : List Ref) (text : String) :
      WrittenInside heap path (.string text) (Text.quoted text.toList)
  | number (path : List Ref) (x : Float) : WrittenInside heap path (.number x) (Number.text x)
  | absent (path : List Ref) : WrittenInside heap path .absent "undef".toList
  | again {path : List Ref} {ref : Ref} (hpath : ref ∈ path) :
      WrittenInside heap path (.array ref) cutOff
  | array {path : List Ref} {ref : Ref} {texts : List (List Char)} (hpath : ref ∉ path)
      (hsize : texts.length = (heap.read ref).size)
      (hitems : ∀ i (hi : i < (heap.read ref).size) (hi' : i < texts.length),
        WrittenInside heap (ref :: path) (heap.read ref)[i] texts[i]) :
      WrittenInside heap path (.array ref) ('[' :: [',', ' '].intercalate texts ++ [']'])

/-- A value has one such text. -/
theorem WrittenInside.unique {text text' : List Char} (h : heap.WrittenInside path v text)
    (h' : heap.WrittenInside path v text') : text = text' := by
  induction h generalizing text' with
  | string => cases h'; rfl
  | number => cases h'; rfl
  | absent => cases h'; rfl
  | again hpath =>
    cases h' with
    | again => rfl
    | array hpath' => exact absurd hpath hpath'
  | @array path ref texts hpath hsize _ ih =>
    cases h' with
    | again hpath' => exact absurd hpath' hpath
    | @array _ _ texts' _ hsize' hitems' =>
      have htexts : texts = texts' := by
        refine List.ext_getElem (hsize.trans hsize'.symm) fun i hi hi' => ?_
        exact ih i (hsize ▸ hi) hi (hitems' i (hsize ▸ hi) hi')
      rw [htexts]

/-! ## 2. Storages ahead -/

/-- The storages that one comes to from the value and that are not on the path. -/
def ahead (heap : Heap) (path : List Ref) (v : Value) : Set Ref :=
  {ref | heap.Reaches v ref ∧ ref ∉ path}

/-- Where an array is opened there is one storage less ahead of its items. -/
theorem encard_ahead_item (hpath : ref ∉ path) (hitem : v ∈ heap.read ref) :
    (heap.ahead (ref :: path) v).encard + 1 ≤ (heap.ahead path (.array ref)).encard := by
  have hnot : ref ∉ heap.ahead (ref :: path) v := fun h => h.2 List.mem_cons_self
  rw [← Set.encard_insert_of_notMem hnot]
  refine Set.encard_le_encard (Set.insert_subset ⟨.self ref, hpath⟩ ?_)
  rintro target ⟨hreach, hnew⟩
  exact ⟨.item hitem hreach, fun h => hnew (List.mem_cons_of_mem _ h)⟩

/-- A depth that is no less than the number of storages ahead is never used up. -/
theorem writtenInside_renderWithin (h : (heap.ahead path v).encard ≤ depth) :
    heap.WrittenInside path v (heap.renderWithin depth path v) := by
  induction depth generalizing path v with
  | zero =>
    cases v with
    | string text => exact .string path text
    | number x => exact .number path x
    | absent => exact .absent path
    | array ref =>
      -- no storage is ahead, so the array is on the path
      have hnone : heap.ahead path (.array ref) = ∅ := by simpa using h
      refine .again ?_
      by_contra hpath
      exact Set.notMem_empty ref (hnone ▸ ⟨.self ref, hpath⟩)
  | succ depth ih =>
    cases v with
    | string text => exact .string path text
    | number x => exact .number path x
    | absent => exact .absent path
    | array ref =>
      rw [renderWithin]
      split_ifs with hpath
      · exact .again hpath
      · refine .array hpath (by simp) fun i hi hi' => ?_
        have hitem : (heap.read ref)[i] ∈ heap.read ref := Array.getElem_mem hi
        have hless := (encard_ahead_item hpath hitem).trans h
        rw [Nat.cast_succ, ENat.add_le_add_iff_right ENat.one_ne_top] at hless
        simpa using ih hless

/-! ## 3. Limits that are high enough -/

/-- In a closed heap one comes to no more storages than there are. -/
theorem Closed.encard_reaches_le (h : heap.Closed) (hv : v.Within heap.size) :
    {ref | heap.Reaches v ref}.encard ≤ heap.size := by
  have hbelow : Set.MapsTo Ref.index {ref | heap.Reaches v ref} (Finset.range heap.size) :=
    fun ref hreach => by simpa using h.lt_size hv hreach
  have hinjective : Function.Injective Ref.index := by
    rintro ⟨i⟩ ⟨j⟩ rfl
    rfl
  have hle := Set.encard_le_encard_of_injOn hbelow hinjective.injOn
  rwa [Set.encard_coe_eq_coe_finsetCard, Finset.card_range] at hle

/-- **The text of a value does not hang on the limit once that is high enough**: as high as the number
of storages that one comes to from the value, with any sharing and cycles. Then an array is cut off
where it is one of those around it, and nowhere else: the text is the only one that is written so. (A
text stands for itself and has no arrays.) -/
theorem render_stable (h : {ref | heap.Reaches v ref}.encard ≤ limit) :
    (∀ limit', limit ≤ limit' → heap.render limit' v = heap.render limit v) ∧
      (v.kind ≠ .string → ∀ text, heap.WrittenInside [] v text ↔
        heap.render limit v = String.ofList text) := by
  have hwritten {limit' : Nat} (hle : limit ≤ limit') :
      heap.WrittenInside [] v (heap.renderWithin limit' [] v) := by
    refine writtenInside_renderWithin ?_
    have hahead : heap.ahead [] v = {ref | heap.Reaches v ref} := by simp [ahead]
    rw [hahead]
    exact h.trans (Nat.cast_le.mpr hle)
  refine ⟨fun limit' hle => ?_, fun hkind text => ?_⟩
  · exact render_eq_of_renderWithin_eq ((hwritten hle).unique (hwritten (Nat.le_refl limit)))
  · have hrender : heap.render limit v = String.ofList (heap.renderWithin limit [] v) := by
      cases v with
      | string => exact absurd rfl hkind
      | number => rfl
      | array => rfl
      | absent => rfl
    rw [hrender, String.ofList_inj]
    exact ⟨fun htext => (hwritten (Nat.le_refl limit)).unique htext,
      fun htext => htext ▸ hwritten (Nat.le_refl limit)⟩

/-- Two arrays that lie in each other, one of them in itself as well, are written out to the depth of
two. -/
theorem render_stable_of_cycles :
    let heap : Heap := ⟨#[#[.array ⟨1⟩, .string "a"], #[.array ⟨0⟩, .array ⟨1⟩]]⟩
    {ref | heap.Reaches (.array ⟨0⟩) ref}.encard ≤ (2 : Nat) ∧
      heap.render 9 (.array ⟨0⟩) = "[[[...], [...]], \"a\"]" ∧
      heap.WrittenInside [] (.array ⟨0⟩) "[[[...], [...]], \"a\"]".toList := by
  intro heap
  have hheap : heap.Closed := closed_of_storages (by decide)
  have hcount : {ref | heap.Reaches (.array ⟨0⟩) ref}.encard ≤ (2 : Nat) :=
    hheap.encard_reaches_le (by decide)
  obtain ⟨hstable, htext⟩ := render_stable hcount
  have hrender : heap.render 2 (.array ⟨0⟩) = "[[[...], [...]], \"a\"]" := by decide +kernel
  exact ⟨hcount, (hstable 9 (by decide)).trans hrender, (htext nofun _).mpr hrender⟩

end GlyphStack.Heap
