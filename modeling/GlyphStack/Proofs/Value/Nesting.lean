import GlyphStack.Proofs.Store.Unaliased
import GlyphStack.Proofs.Value.ShapeOrder

/-!
One limit on nesting. Three walks through arrays in each other are bounded by it, and each keeps count
in its own way: a deep copy by what is left of the limit, a text by that and by the arrays around, a
comparison by the pairs that are still to be opened, after it has looked whether the two are one
array.

How deep arrays lie in each other is a matter of the chains of arrays that start at a value, not of
how many arrays there are: an array that is shared lies in several chains, and one on a cycle lies in
chains of any length. `NestsWithin` bounds them all (`nestsWithin_iff_chain`). A deep copy exists
exactly then, and then the other two walks do not meet the limit either. Where there is none, the text
marks what it leaves out (`cutOff_infix_render`).

A deep copy adds storages while it goes on, so what is said of it holds on every heap that is apart
from the one in which the value lies.
-/

namespace GlyphStack

namespace Heap

variable {host heap : Heap} {limit depth deeper : Nat} {path : List Ref} {ref target : Ref}
  {v a b : Value}

/-! ## 1. Chains of arrays -/

/-- The arrays are a chain that starts at the value: each stands in the one before it. -/
inductive Chain (heap : Heap) : Value → List Ref → Prop where
  | last (ref : Ref) : Chain heap (.array ref) [ref]
  | item {ref : Ref} {v : Value} {refs : List Ref} (hitem : v ∈ heap.read ref)
      (h : Chain heap v refs) : Chain heap (.array ref) (ref :: refs)

/-- The array lies in itself: from an item of it one comes back to it. -/
def OnCycle (heap : Heap) (ref : Ref) : Prop :=
  ∃ v ∈ heap.read ref, heap.Reaches v ref

theorem not_nestsWithin_zero : ¬ heap.NestsWithin 0 (.array ref) := by
  intro h
  cases h with
  | plain h => exact h rfl

theorem nestsWithin_succ_iff :
    heap.NestsWithin (depth + 1) (.array ref) ↔ ∀ v ∈ heap.read ref, heap.NestsWithin depth v := by
  refine ⟨fun h => ?_, .array⟩
  cases h with
  | plain h => exact absurd rfl h
  | array h => exact h

/-- **Arrays lie in each other as deep as the longest chain of them goes.** -/
theorem nestsWithin_iff_chain :
    heap.NestsWithin depth v ↔ ∀ refs, heap.Chain v refs → refs.length ≤ depth := by
  constructor
  · intro h refs hchain
    induction hchain generalizing depth with
    | last ref =>
      cases depth with
      | zero => exact absurd h not_nestsWithin_zero
      | succ depth => exact Nat.succ_le_succ (Nat.zero_le _)
    | @item ref v refs hitem _ ih =>
      cases depth with
      | zero => exact absurd h not_nestsWithin_zero
      | succ depth => exact Nat.succ_le_succ (ih (nestsWithin_succ_iff.mp h v hitem))
  · intro h
    induction depth generalizing v with
    | zero =>
      rcases v.array_or_kind_ne with ⟨ref, rfl⟩ | hkind
      · exact absurd (h [ref] (.last ref)) (Nat.not_succ_le_zero 0)
      · exact .plain hkind
    | succ depth ih =>
      rcases v.array_or_kind_ne with ⟨ref, rfl⟩ | hkind
      · exact .array fun v hitem => ih fun refs hchain =>
          Nat.le_of_succ_le_succ (h (ref :: refs) (.item hitem hchain))
      · exact .plain hkind

theorem NestsWithin.mono (h : heap.NestsWithin depth v) (hle : depth ≤ deeper) :
    heap.NestsWithin deeper v :=
  nestsWithin_iff_chain.mpr fun refs hchain =>
    Nat.le_trans (nestsWithin_iff_chain.mp h refs hchain) hle

/-- What one comes to lies no deeper. -/
theorem NestsWithin.of_reaches (h : heap.NestsWithin depth v) (hreach : heap.Reaches v target) :
    heap.NestsWithin depth (.array target) := by
  induction hreach generalizing depth with
  | self ref => exact h
  | @item ref target v hitem _ ih =>
    cases depth with
    | zero => exact absurd h not_nestsWithin_zero
    | succ depth => exact (ih (nestsWithin_succ_iff.mp h v hitem)).mono (Nat.le_succ depth)

/-- An array on a cycle lies in itself as deep as one likes. -/
theorem OnCycle.not_nestsWithin (h : heap.OnCycle ref) : ¬ heap.NestsWithin depth (.array ref) := by
  obtain ⟨v, hitem, hback⟩ := h
  induction depth with
  | zero => exact not_nestsWithin_zero
  | succ depth ih => exact fun hnests => ih ((nestsWithin_succ_iff.mp hnests v hitem).of_reaches hback)

/-! ## 2. Deep copies -/

/-- Items can be copied one after the other if each can be copied on all the heaps that come up. -/
theorem isSome_copyItems_iff {copyItem : Heap → Value → Option (Value × Heap)} {good : Heap → Prop}
    {copiable : Value → Prop} {vs : List Value}
    (hcopy : ∀ v ∈ vs, ∀ {heap : Heap}, good heap → ((copyItem heap v).isSome ↔ copiable v))
    (hgood : ∀ {heap after : Heap} {v copy : Value}, good heap →
      copyItem heap v = some (copy, after) → good after)
    (h : good heap) : (copyItems copyItem heap vs).isSome ↔ ∀ v ∈ vs, copiable v := by
  induction vs generalizing heap with
  | nil => simp [copyItems]
  | cons v vs ih =>
    have hfirst := hcopy v List.mem_cons_self h
    rw [copyItems_cons, List.forall_mem_cons, ← hfirst]
    cases hitem : copyItem heap v with
    | none => simp
    | some result =>
      obtain ⟨copy, between⟩ := result
      have hrest := ih (fun v hv => hcopy v (List.mem_cons_of_mem _ hv)) (hgood h hitem)
      simpa using hrest

/-- **A deep copy exists exactly if arrays lie no deeper than the limit**, on the value's own heap and
on any heap apart from it. -/
theorem isSome_deepCopy_iff (hclosed : host.Closed) (hv : v.Within host.size) (h : host.Apart heap) :
    (heap.deepCopy limit v).isSome ↔ host.NestsWithin limit v := by
  induction limit generalizing heap v with
  | zero =>
    rcases v.array_or_kind_ne with ⟨ref, rfl⟩ | hkind
    · simp [deepCopy, not_nestsWithin_zero]
    · simp [deepCopy_of_kind hkind, NestsWithin.plain hkind]
  | succ limit ih =>
    rcases v.array_or_kind_ne with ⟨ref, rfl⟩ | hkind
    · have hread : heap.read ref = host.read ref := h.read_eq ref (hv ref rfl)
      have hcopy : ∀ v ∈ (host.read ref).toList, ∀ {heap : Heap}, host.Apart heap →
          ((heap.deepCopy limit v).isSome ↔ host.NestsWithin limit v) := fun v hmem _ h =>
        ih (hclosed ref v (Array.mem_toList_iff.mp hmem)) h
      rw [deepCopy_succ, Option.isSome_map, hread,
        isSome_copyItems_iff hcopy (fun h hcopy => h.deepCopy hcopy) h, nestsWithin_succ_iff]
      simp only [Array.mem_toList_iff]
    · simp [deepCopy_of_kind hkind, NestsWithin.plain hkind]

/-! ## 3. Texts -/

/-- The text of a value with its arrays written out to the depth, whatever arrays are around. -/
def writtenOut (heap : Heap) : (depth : Nat) → Value → List Char
  | _, .string text => Text.quoted text.toList
  | _, .number x => Number.text x
  | _, .absent => "undef".toList
  | 0, .array _ => cutOff
  | depth + 1, .array ref =>
      '[' :: [',', ' '].intercalate ((heap.read ref).toList.map (writtenOut heap depth)) ++ [']']

@[simp] theorem writtenOut_string (heap : Heap) (depth : Nat) (text : String) :
    heap.writtenOut depth (.string text) = Text.quoted text.toList := by
  cases depth <;> rfl

@[simp] theorem writtenOut_number (heap : Heap) (depth : Nat) (x : Float) :
    heap.writtenOut depth (.number x) = Number.text x := by
  cases depth <;> rfl

@[simp] theorem writtenOut_absent (heap : Heap) (depth : Nat) :
    heap.writtenOut depth .absent = "undef".toList := by
  cases depth <;> rfl

/-- The text of a value that is no array comes from no heap and needs no depth. -/
theorem writtenOut_of_kind_ne (h : v.kind ≠ .array) :
    heap.writtenOut depth v = host.writtenOut deeper v := by
  cases v with
  | array => exact absurd rfl h
  | string => simp
  | number => simp
  | absent => simp

/-- Writing the text comes to an array that it cuts off: no more may be opened, or the array is one of
those around it. -/
inductive CutsOff (heap : Heap) : (depth : Nat) → (path : List Ref) → Value → Prop where
  | deep (path : List Ref) (ref : Ref) : CutsOff heap 0 path (.array ref)
  | again {depth : Nat} {path : List Ref} {ref : Ref} (hpath : ref ∈ path) :
      CutsOff heap (depth + 1) path (.array ref)
  | item {depth : Nat} {path : List Ref} {ref : Ref} {v : Value} (hpath : ref ∉ path)
      (hitem : v ∈ heap.read ref) (h : CutsOff heap depth (ref :: path) v) :
      CutsOff heap (depth + 1) path (.array ref)

theorem intercalate_cons (separator first : List Char) (others : List (List Char)) :
    separator.intercalate (first :: others) = first ++ others.flatMap (separator ++ ·) := by
  induction others generalizing first with
  | nil => simp
  | cons second others ih =>
    rw [List.intercalate_cons_cons, ih, List.flatMap_cons]
    simp

theorem infix_intercalate (separator : List Char) {part : List Char} {parts : List (List Char)}
    (h : part ∈ parts) : part <:+: separator.intercalate parts := by
  cases parts with
  | nil => simp at h
  | cons first others =>
    rw [intercalate_cons]
    rcases List.mem_cons.mp h with rfl | h
    · exact (List.prefix_append part _).isInfix
    · have hpart : separator ++ part ∈ others.map (separator ++ ·) := List.mem_map_of_mem h
      have hwithin : part <:+: separator ++ part := (List.suffix_append separator part).isInfix
      have hothers := hwithin.trans (List.infix_of_mem_flatten hpart)
      exact hothers.trans (List.suffix_append first _).isInfix

/-- What is cut off shows in the text. -/
theorem CutsOff.cutOff_infix (h : heap.CutsOff depth path v) :
    cutOff <:+: heap.renderWithin depth path v := by
  induction h with
  | deep => exact List.infix_refl _
  | @again depth path ref hpath =>
    have htext : heap.renderWithin (depth + 1) path (.array ref) = cutOff := by
      rw [renderWithin, if_pos hpath]
    exact htext ▸ List.infix_refl cutOff
  | @item depth path ref v hpath hitem _ ih =>
    rw [renderWithin, if_neg hpath]
    have hmem : heap.renderWithin depth (ref :: path) v ∈
        (heap.read ref).toList.map (heap.renderWithin depth (ref :: path)) :=
      List.mem_map_of_mem (Array.mem_toList_iff.mpr hitem)
    have hitems := ih.trans (infix_intercalate [',', ' '] hmem)
    exact (List.infix_cons hitems).trans (List.prefix_append _ [']']).isInfix

/-- Where nothing is cut off, all is written out. -/
theorem renderWithin_of_not_cutsOff (h : ¬ heap.CutsOff depth path v) :
    heap.renderWithin depth path v = heap.writtenOut depth v := by
  induction depth generalizing path v with
  | zero =>
    cases v with
    | array ref => exact absurd (.deep path ref) h
    | string => rfl
    | number => rfl
    | absent => rfl
  | succ depth ih =>
    cases v with
    | array ref =>
      have hpath : ref ∉ path := fun hmem => h (.again hmem)
      have hitems : (heap.read ref).toList.map (heap.renderWithin depth (ref :: path)) =
          (heap.read ref).toList.map (heap.writtenOut depth) :=
        List.map_congr_left fun v hmem =>
          ih fun hcut => h (.item hpath (Array.mem_toList_iff.mp hmem) hcut)
      rw [renderWithin, if_neg hpath, hitems, writtenOut]
    | string => rfl
    | number => rfl
    | absent => rfl

/-- Nothing is cut off where arrays lie deep enough only and one does not come back to those
around. -/
theorem NestsWithin.not_cutsOff (h : heap.NestsWithin depth v)
    (hpath : ∀ ref ∈ path, ¬ heap.Reaches v ref) : ¬ heap.CutsOff depth path v := by
  intro hcut
  induction hcut with
  | deep => exact not_nestsWithin_zero h
  | again hmem => exact hpath _ hmem (.self _)
  | @item depth path ref v _ hitem _ ih =>
    refine ih (nestsWithin_succ_iff.mp h v hitem) fun other hmem hreach => ?_
    rcases List.mem_cons.mp hmem with rfl | hmem
    · exact OnCycle.not_nestsWithin ⟨v, hitem, hreach⟩ h
    · exact hpath other hmem (.item hitem hreach)

theorem NestsWithin.renderWithin_eq (h : heap.NestsWithin depth v) :
    heap.renderWithin depth [] v = heap.writtenOut depth v :=
  renderWithin_of_not_cutsOff (h.not_cutsOff (by simp))

/-- Where arrays lie deeper, or one comes back to one of those around, something is cut off. -/
theorem cutsOff_of_not_nestsWithin (h : ¬ heap.NestsWithin depth v) : heap.CutsOff depth path v := by
  induction depth generalizing path v with
  | zero =>
    rcases v.array_or_kind_ne with ⟨ref, rfl⟩ | hkind
    · exact .deep path ref
    · exact absurd (.plain hkind) h
  | succ depth ih =>
    rcases v.array_or_kind_ne with ⟨ref, rfl⟩ | hkind
    · by_cases hpath : ref ∈ path
      · exact .again hpath
      · rw [nestsWithin_succ_iff] at h
        push Not at h
        obtain ⟨v, hitem, hdeep⟩ := h
        exact .item hpath hitem (ih hdeep)
    · exact absurd (.plain hkind) h

/-- Once all is written out, a greater depth changes nothing. -/
theorem NestsWithin.writtenOut_eq (h : heap.NestsWithin depth v) (hle : depth ≤ deeper) :
    heap.writtenOut deeper v = heap.writtenOut depth v := by
  induction depth generalizing deeper v with
  | zero =>
    rcases v.array_or_kind_ne with ⟨ref, rfl⟩ | hkind
    · exact absurd h not_nestsWithin_zero
    · exact writtenOut_of_kind_ne hkind
  | succ depth ih =>
    obtain ⟨deeper, rfl⟩ : ∃ n, deeper = n + 1 := ⟨deeper - 1, by omega⟩
    rcases v.array_or_kind_ne with ⟨ref, rfl⟩ | hkind
    · have hitems : (heap.read ref).toList.map (heap.writtenOut deeper) =
          (heap.read ref).toList.map (heap.writtenOut depth) :=
        List.map_congr_left fun v hmem =>
          ih (nestsWithin_succ_iff.mp h v (Array.mem_toList_iff.mp hmem)) (Nat.le_of_succ_le_succ hle)
      rw [writtenOut, writtenOut, hitems]
    · exact writtenOut_of_kind_ne hkind

theorem NestsWithin.render_eq (h : heap.NestsWithin limit v) (hle : limit ≤ deeper) :
    heap.render deeper v = heap.render limit v := by
  have htext : heap.renderWithin deeper [] v = heap.renderWithin limit [] v := by
    rw [(h.mono hle).renderWithin_eq, h.renderWithin_eq, h.writtenOut_eq hle]
  exact render_eq_of_renderWithin_eq htext

/-! ## 4. Comparisons -/

/-- Lists compare without a fault if their items do. -/
theorem exists_compareItems_eq_ok
    {compareItem : Value → Value → Except Fault (Option Ordering)} {xs ys : List Value}
    (h : ∀ x ∈ xs, ∀ y ∈ ys, ∃ order, compareItem x y = .ok order) :
    ∃ order, compareItems compareItem xs ys = .ok order := by
  induction xs generalizing ys with
  | nil => cases ys <;> exact ⟨_, rfl⟩
  | cons x xs ih =>
    cases ys with
    | nil => exact ⟨_, rfl⟩
    | cons y ys =>
      obtain ⟨order, horder⟩ := h x List.mem_cons_self y List.mem_cons_self
      have hrest := ih fun x hx y hy => h x (List.mem_cons_of_mem _ hx) y (List.mem_cons_of_mem _ hy)
      rw [compareItems, horder]
      rcases order with - | (- | - | -)
      · exact ⟨_, rfl⟩
      · exact ⟨_, rfl⟩
      · exact hrest
      · exact ⟨_, rfl⟩

/-- Pairs of arrays are opened no deeper than arrays lie in each other on either side. -/
theorem exists_compareWithin_eq_ok (h : heap.NestsWithin depth a ∨ heap.NestsWithin depth b) :
    ∃ order, heap.compareWithin limit depth a b = .ok order := by
  induction depth generalizing a b with
  | zero =>
    rcases compare_cases a b with ⟨ha, hb⟩ | ⟨left, right, rfl, rfl⟩ | htext
    · exact ⟨_, compareWithin_of_isNumeric ha hb⟩
    · exact absurd h (by simp [not_nestsWithin_zero])
    · exact ⟨_, compareWithin_of_byText htext⟩
  | succ depth ih =>
    rcases compare_cases a b with ⟨ha, hb⟩ | ⟨left, right, rfl, rfl⟩ | htext
    · exact ⟨_, compareWithin_of_isNumeric ha hb⟩
    · by_cases hsame : left = right
      · subst hsame
        exact ⟨_, compareWithin_self left⟩
      · rw [compareWithin_succ hsame]
        refine exists_compareItems_eq_ok fun x hx y hy => ih ?_
        rw [nestsWithin_succ_iff, nestsWithin_succ_iff] at h
        exact h.imp (· x (Array.mem_toList_iff.mp hx)) (· y (Array.mem_toList_iff.mp hy))
    · exact ⟨_, compareWithin_of_byText htext⟩

/-! ## 5. The limit -/

/-- **What has no deep copy shows the limit in its text**: something is cut off there. -/
theorem cutOff_infix_render (hheap : heap.Closed) (hv : v.Within heap.size)
    (h : heap.deepCopy limit v = none) : cutOff <:+: (heap.render limit v).toList := by
  have hdeep : ¬ heap.NestsWithin limit v := by
    rw [← isSome_deepCopy_iff hheap hv (.refl heap), h]
    simp
  have hcut : heap.CutsOff limit [] v := cutsOff_of_not_nestsWithin hdeep
  have hshows := hcut.cutOff_infix
  rcases v.array_or_kind_ne with ⟨ref, rfl⟩ | hkind
  · simpa [render] using hshows
  · exact absurd (.plain hkind) hdeep

/-- **Deep copies, texts and comparisons have one limit on nesting.** A value has a deep copy within
the limit exactly if no chain of arrays that starts at it is longer, so it has none if one comes from
it to an array that lies in itself. And if it has one, its text is the same within every higher limit
and nothing is cut off in it, and it compares with any value, from either side, without a fault. -/
theorem one_nesting_limit (hheap : heap.Closed) (hv : v.Within heap.size) (limit : Nat) :
    ((heap.deepCopy limit v).isSome ↔ ∀ refs, heap.Chain v refs → refs.length ≤ limit) ∧
      ((∃ ref, heap.Reaches v ref ∧ heap.OnCycle ref) → heap.deepCopy limit v = none) ∧
      ((heap.deepCopy limit v).isSome →
        (∀ limit', limit ≤ limit' →
          heap.render limit' v = heap.render limit v ∧ ¬ heap.CutsOff limit' [] v) ∧
        ∀ w, (∃ order, heap.compare limit v w = .ok order) ∧
          ∃ order, heap.compare limit w v = .ok order) := by
  have hcopy : (heap.deepCopy limit v).isSome ↔ heap.NestsWithin limit v :=
    isSome_deepCopy_iff hheap hv (.refl heap)
  refine ⟨hcopy.trans nestsWithin_iff_chain, ?_, ?_⟩
  · rintro ⟨ref, hreach, hcycle⟩
    rw [← Option.not_isSome_iff_eq_none, hcopy]
    exact fun hnests => hcycle.not_nestsWithin (hnests.of_reaches hreach)
  · rw [hcopy]
    intro hnests
    refine ⟨fun limit' hle => ⟨hnests.render_eq hle, (hnests.mono hle).not_cutsOff (by simp)⟩, ?_⟩
    exact fun w => ⟨exists_compareWithin_eq_ok (.inl hnests), exists_compareWithin_eq_ok (.inr hnests)⟩

/-- An array that stands twice in another one lies two deep, and an array that stands in itself has
no deep copy. -/
theorem nesting_of_shared_and_cyclic :
    let heap : Heap := ⟨#[#[.string "a"], #[.array ⟨0⟩, .array ⟨0⟩], #[.array ⟨2⟩]]⟩
    (∀ refs, heap.Chain (.array ⟨1⟩) refs → refs.length ≤ 2) ∧
      heap.render 5 (.array ⟨1⟩) = heap.render 2 (.array ⟨1⟩) ∧
      heap.deepCopy 9 (.array ⟨2⟩) = none := by
  intro heap
  have hheap : heap.Closed := closed_of_storages (by decide)
  have hshared : (heap.deepCopy 2 (.array ⟨1⟩)).isSome := by decide
  have hcycle : heap.OnCycle ⟨2⟩ := ⟨.array ⟨2⟩, by simp [heap, read], .self _⟩
  obtain ⟨hchains, -, htexts⟩ := one_nesting_limit hheap (v := .array ⟨1⟩) (by decide) 2
  obtain ⟨-, hnone, -⟩ := one_nesting_limit hheap (v := .array ⟨2⟩) (by decide) 9
  exact ⟨hchains.mp hshared, ((htexts hshared).1 5 (by decide)).1, hnone ⟨⟨2⟩, .self _, hcycle⟩⟩

end Heap

end GlyphStack
