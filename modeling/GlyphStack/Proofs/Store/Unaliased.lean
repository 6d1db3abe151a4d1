import Mathlib.Data.List.Nodup
import GlyphStack.Proofs.Store.Apart
import GlyphStack.Proofs.Store.Effect

/-!
Stacks that nothing refers to. Stacks and arrays are storages alike, so what becomes of an open
stack depends on who else holds it. A stack is `Unaliased` while it is open once and no value
anywhere is it: then no unit can reach it but through the open stacks. A unit cannot make a
reference to such a stack out of the values it finds, and only closing the stack hands one out
(`Unaliased.of_effect`).

That a new storage starts out so needs one thing more: no value may refer to a storage that is not
there yet. A store is `Closed` if its references all have their storages, which units keep too.
-/

namespace GlyphStack

/-! ## 1. References that have their storages -/

/-- If the value is an array, it is one of the first `size` storages. -/
def Value.Within (size : Nat) (v : Value) : Prop :=
  ∀ ref, v = .array ref → ref.index < size

namespace Value

variable {v : Value} {size size' : Nat}

theorem within_of_kind (h : v.kind ≠ .array) : v.Within size := by
  rintro ref rfl
  simp [kind] at h

instance decidableWithin (size : Nat) : (v : Value) → Decidable (v.Within size)
  | .array ref =>
      decidable_of_iff (ref.index < size) ⟨fun h _ href => Value.array.inj href ▸ h, fun h => h ref rfl⟩
  | .string _ | .number _ | .absent => .isTrue (within_of_kind nofun)

theorem Within.mono (h : v.Within size) (hsize : size ≤ size') : v.Within size' := by
  intro ref href
  exact Nat.lt_of_lt_of_le (h ref href) hsize

end Value

/-- Every reference that stands in a storage has its storage. -/
def Heap.Closed (heap : Heap) : Prop :=
  ∀ ref, ∀ v ∈ heap.read ref, v.Within heap.size

namespace Heap

variable {heap : Heap}

theorem Closed.alloc (h : heap.Closed) {items : Array Value}
    (hitems : ∀ v ∈ items, v.Within heap.size) : (heap.alloc items).2.Closed := by
  intro ref v hv
  rw [size_alloc]
  rcases mem_read_alloc hv with hv | hv
  · exact (h ref v hv).mono (Nat.le_succ _)
  · exact (hitems v hv).mono (Nat.le_succ _)

/-- A heap is closed if the values that stand in its storages refer to storages that are there. -/
theorem closed_of_storages (h : ∀ items ∈ heap.storages, ∀ v ∈ items, v.Within heap.size) :
    heap.Closed := by
  intro ref v hv
  rcases Nat.lt_or_ge ref.index heap.size with hlt | hge
  · have hlt' : ref.index < heap.storages.size := hlt
    refine h (heap.read ref) ?_ v hv
    rw [read, Array.getD_eq_getD_getElem?, Array.getElem?_eq_getElem hlt', Option.getD_some]
    exact Array.getElem_mem hlt'
  · rw [read_of_le hge] at hv
    simp at hv

theorem closed_empty : empty.Closed := by
  intro ref v hv
  rw [read_of_le (Nat.zero_le _)] at hv
  simp at hv

/-- Copies of values refer to storages that are there. -/
theorem closed_copying : Copying Closed fun heap v => v.Within heap.size where
  plain h := Value.within_of_kind h
  mono hsize h := h.mono hsize
  alloc {heap items} h hitems := by
    refine ⟨h.alloc hitems, ?_⟩
    intro ref href
    cases href
    rw [size_alloc]
    exact Nat.lt_succ_self _

end Heap

namespace Store

/-- Every reference in the store has its storage. -/
structure Closed (store : Store) : Prop where
  heap : store.heap.Closed
  bindings : ∀ entry ∈ store.bindings.entries, entry.2.Within store.heap.size
  frames : ∀ ref ∈ store.frames.toList, ref.index < store.heap.size

variable {limits : Limits} {base after : Store} {instruction : Instruction}

theorem Closed.current (h : base.Closed) : base.frames.current.index < base.heap.size :=
  h.frames _ base.frames.current_mem_toList

theorem Closed.holds (h : base.Closed) {v : Value} (hv : base.Holds v) :
    v.Within base.heap.size := by
  cases hv with
  | plain hv => exact Value.within_of_kind hv
  | item _ hv => exact h.heap _ v hv
  | binding hentry => exact h.bindings _ hentry

theorem Closed.offers (h : base.Closed) {v : Value} (hsize : base.heap.size ≤ after.heap.size)
    (hv : base.Offers after v) : v.Within after.heap.size := by
  cases hv with
  | held hv => exact (h.holds hv).mono hsize
  | new hnew hthere =>
    intro ref href
    cases href
    exact hthere

/-- Units keep the references of a store within its storages. -/
theorem Closed.of_effect (h : base.Closed) (heffect : Effect limits base instruction after) :
    after.Closed where
  heap := by
    intro ref v hv
    rcases heffect.offers hv with hv | hv | ⟨-, rfl⟩
    · exact (h.heap ref v hv).mono heffect.size_le
    · exact h.offers heffect.size_le hv
    · intro ref href
      cases href
      exact Nat.lt_of_lt_of_le h.current heffect.size_le
  bindings := by
    intro entry hentry
    exact (h.holds (heffect.holds hentry)).mono heffect.size_le
  frames := by
    intro ref hmem
    rcases heffect.offers_frames hmem with hmem | hoffered
    · exact Nat.lt_of_lt_of_le (h.frames ref hmem) heffect.size_le
    · exact h.offers heffect.size_le hoffered ref rfl

/-! ## 2. Stacks that no value is -/

/-- The stack is open once, and no value in a storage or of a variable is the array that it is. -/
structure Unaliased (store : Store) (ref : Ref) : Prop where
  there : ref.index < store.heap.size
  storages : ∀ other, .array ref ∉ store.heap.read other
  bindings : ∀ entry ∈ store.bindings.entries, entry.2 ≠ .array ref
  once : store.frames.toList.count ref = 1

namespace Unaliased

variable {ref : Ref}

/-- A stack below some other one is not the current one. -/
theorem ne_current (h : base.Unaliased ref) {outer rest : List Ref} {inner : Ref}
    (hframes : base.frames.toList = outer ++ inner :: rest) (hmem : ref ∈ outer) :
    ref ≠ base.frames.current := by
  rintro rfl
  have hlast : base.frames.current ∈ inner :: rest := by
    have hgetLast : (outer ++ inner :: rest).getLast? = some base.frames.current := by
      rw [← hframes]
      simp [Frames.toList]
    rw [List.getLast?_append_of_ne_nil _ (List.cons_ne_nil _ _)] at hgetLast
    exact List.mem_of_getLast? hgetLast
  have honce := h.once
  have houter : 0 < outer.count base.frames.current := List.count_pos_iff.mpr hmem
  have hinner : 0 < (inner :: rest).count base.frames.current := List.count_pos_iff.mpr hlast
  rw [hframes, List.count_append] at honce
  omega

/-- No unit comes by a value that is the stack. -/
theorem ne_of_holds (h : base.Unaliased ref) {v : Value} (hv : base.Holds v) : v ≠ .array ref := by
  rintro rfl
  generalize hw : Value.array ref = w at hv
  cases hv with
  | plain hv =>
    subst hw
    simp [Value.kind] at hv
  | item _ hv =>
    subst hw
    exact h.storages _ hv
  | binding hentry => exact h.bindings _ hentry hw.symm

theorem ne_of_offers (h : base.Unaliased ref) {v : Value} (hv : base.Offers after v) :
    v ≠ .array ref := by
  cases hv with
  | held hv => exact h.ne_of_holds hv
  | new hnew hthere =>
    rintro ⟨⟩
    exact absurd h.there (Nat.not_lt.mpr hnew)

/-- A stack that stays open when the current one is closed is another one. -/
theorem of_closesTo (h : base.Unaliased ref) (hclose : base.ClosesTo after)
    (hopen : ref ∈ after.frames.toList) :
    base.frames.current ≠ ref ∧ after.frames.toList.count ref = 1 := by
  rcases hclose with hclose | ⟨-, hsingle, -⟩
  · have hpos : 0 < after.frames.toList.count ref := List.count_pos_iff.mpr hopen
    have honce := h.once
    rw [Frames.toList_of_closeOne? hclose, List.count_append, List.count_singleton] at honce
    by_cases hcurrent : base.frames.current = ref
    · simp [hcurrent] at honce
      omega
    · simp [hcurrent] at honce
      exact ⟨hcurrent, honce⟩
  · rw [hsingle] at hopen
    have href : ref = ⟨base.heap.size⟩ := List.mem_singleton.mp hopen
    have hthere := h.there
    rw [href] at hthere
    exact absurd hthere (Nat.lt_irrefl _)

/-- Another value may be pushed. -/
theorem push (h : base.Unaliased ref) {v : Value} (hv : v ≠ .array ref) :
    (base.mapStack (·.push v)).Unaliased ref where
  there := by simpa using h.there
  storages := by
    intro other hmem
    rcases Heap.mem_read_update hmem with hmem | ⟨-, hmem⟩
    · exact h.storages other hmem
    · rcases Array.mem_push.mp hmem with hmem | hpushed
      · exact h.storages _ hmem
      · exact hv hpushed.symm
  bindings := h.bindings
  once := h.once

end Unaliased

/-- A new storage that is opened once is no value yet. -/
theorem Closed.unaliased_adding (h : base.Closed) {frames : Frames}
    (honce : frames.toList.count ⟨base.heap.size⟩ = 1) :
    ({ base.adding #[] with frames } : Store).Unaliased ⟨base.heap.size⟩ where
  there := by simp [adding]
  storages := by
    intro other hmem
    rcases Heap.mem_read_alloc hmem with hmem | hmem
    · exact Nat.lt_irrefl _ (h.heap other _ hmem _ rfl)
    · simp at hmem
  bindings := by
    intro entry hentry hnew
    exact Nat.lt_irrefl _ (h.bindings entry hentry _ hnew)
  once := honce

/-- **Units hand out no open stack.** While a stack that no value is stays open, no value becomes
it, whatever the unit does. -/
theorem Unaliased.of_effect {ref : Ref} (h : base.Unaliased ref)
    (heffect : Effect limits base instruction after) (hopen : ref ∈ after.frames.toList) :
    after.Unaliased ref where
  there := Nat.lt_of_lt_of_le h.there heffect.size_le
  storages := by
    intro other hmem
    rcases heffect.offers hmem with hold | hoffered | ⟨hclose, hcurrent⟩
    · exact h.storages other hold
    · exact h.ne_of_offers hoffered rfl
    · exact (h.of_closesTo hclose hopen).1 (Value.array.inj hcurrent).symm
  bindings := by
    intro entry hentry
    exact h.ne_of_holds (heffect.holds hentry)
  once := by
    rcases heffect.frames_cases with hsame | ⟨-, opened, hopened, hwhich⟩ | ⟨-, hclose⟩
    · rw [hsame]
      exact h.once
    · have hother : opened ≠ ref := by
        rintro rfl
        rcases hwhich with ⟨-, hnew, -⟩ | ⟨-, below, harray⟩
        · have hthere := h.there
          rw [hnew] at hthere
          exact Nat.lt_irrefl _ hthere
        · exact h.ne_of_holds (holds_of_stack_eq harray) rfl
      rw [hopened, Frames.toList_openOne, List.count_append, h.once]
      simp [hother]
    · exact (h.of_closesTo hclose hopen).2

/-- Taking values off aliases nothing. -/
theorem Unaliased.taking {ref : Ref} (h : base.Unaliased ref) (n : Nat) :
    (base.taking n).Unaliased ref where
  there := by simpa [Store.taking] using h.there
  storages := by
    intro other hmem
    rcases Heap.mem_read_update hmem with hmem | ⟨-, hmem⟩
    · exact h.storages other hmem
    · exact h.storages _ (mem_of_mem_shrink hmem)
  bindings := h.bindings
  once := h.once

/-! ## 3. New stacks -/

/-- The references of the store have their storages, and no value is one of the open stacks. -/
structure Pristine (store : Store) : Prop where
  closed : store.Closed
  unaliased : ∀ ref ∈ store.frames.toList, store.Unaliased ref

theorem toList_foldl_openOne (refs : List Ref) (frames : Frames) :
    (refs.foldl Frames.openOne frames).toList = frames.toList ++ refs := by
  induction refs generalizing frames with
  | nil => simp
  | cons ref refs ih => simp [ih]

theorem size_allocAll (heap : Heap) (contents : List (Array Value)) :
    (allocAll heap contents).2.size = heap.size + contents.length := by
  induction contents generalizing heap with
  | nil => rfl
  | cons items rest ih =>
    show (allocAll (heap.alloc items).2 rest).2.size = _
    rw [ih, Heap.size_alloc, List.length_cons]
    omega

/-- The new storages come after all others, in the order of the list. -/
theorem refs_allocAll (heap : Heap) (contents : List (Array Value)) :
    (allocAll heap contents).1 = (List.range' heap.size contents.length).map Ref.mk := by
  induction contents generalizing heap with
  | nil => rfl
  | cons items rest ih =>
    show (heap.alloc items).1 :: (allocAll (heap.alloc items).2 rest).1 = _
    rw [ih, Heap.size_alloc, List.length_cons, List.range'_succ]
    rfl

theorem mem_read_allocAll {heap : Heap} {contents : List (Array Value)} {ref : Ref} {v : Value}
    (hv : v ∈ (allocAll heap contents).2.read ref) :
    v ∈ heap.read ref ∨ ∃ items ∈ contents, v ∈ items := by
  induction contents generalizing heap with
  | nil => exact .inl hv
  | cons items rest ih =>
    have hv' : v ∈ (allocAll (heap.alloc items).2 rest).2.read ref := hv
    rcases ih hv' with hv | ⟨others, hmem, hv⟩
    · rcases Heap.mem_read_alloc hv with hv | hv
      · exact .inl hv
      · exact .inr ⟨items, List.mem_cons_self, hv⟩
    · exact .inr ⟨others, List.mem_cons_of_mem _ hmem, hv⟩

/-- New storages are open as stacks, and what they hold was there before. -/
theorem pristine_of_allocAll {heap : Heap} {contents : List (Array Value)} {frames : Frames}
    {bindings : Dictionary} {output : Array String} (hheap : heap.Closed)
    (hcontents : ∀ items ∈ contents, ∀ v ∈ items, v.Within heap.size)
    (hbindings : ∀ entry ∈ bindings.entries, entry.2.Within heap.size)
    (hframes : frames.toList = (allocAll heap contents).1) :
    Pristine { heap := (allocAll heap contents).2, frames, bindings, output } := by
  have hsize := size_allocAll heap contents
  have hgrown : heap.size ≤ (allocAll heap contents).2.size := by omega
  have hold {ref : Ref} {v : Value} (hv : v ∈ (allocAll heap contents).2.read ref) :
      v.Within heap.size := by
    rcases mem_read_allocAll hv with hv | ⟨items, hmem, hv⟩
    · exact hheap ref v hv
    · exact hcontents items hmem v hv
  rw [refs_allocAll] at hframes
  have hnew {ref : Ref} (hmem : ref ∈ frames.toList) :
      heap.size ≤ ref.index ∧ ref.index < (allocAll heap contents).2.size := by
    rw [hframes] at hmem
    obtain ⟨i, hi, rfl⟩ := List.mem_map.mp hmem
    rw [List.mem_range'_1] at hi
    exact ⟨hi.1, hsize ▸ hi.2⟩
  refine ⟨⟨fun _ _ hv => (hold hv).mono hgrown, fun entry hentry => ?_, fun ref hmem => (hnew hmem).2⟩,
    fun ref hmem => ⟨(hnew hmem).2, fun other hv => ?_, fun entry hentry hv => ?_, ?_⟩⟩
  · exact (hbindings entry hentry).mono hgrown
  · exact absurd (hold hv ref rfl) (Nat.not_lt.mpr (hnew hmem).1)
  · exact absurd (hbindings entry hentry ref hv) (Nat.not_lt.mpr (hnew hmem).1)
  · have hnodup : frames.toList.Nodup := by
      rw [hframes]
      exact (List.nodup_range' 1).map fun i j h => congrArg Ref.index h
    exact List.count_eq_one_of_mem hnodup hmem

theorem pristine_onHeap {heap : Heap} (h : heap.Closed) : (onHeap heap).Pristine := by
  have hframes : (Frames.single ⟨heap.size⟩).toList = (allocAll heap [#[]]).1 := rfl
  exact pristine_of_allocAll h (by simp) (by simp [Dictionary.empty]) hframes

/-- A host's new stacks may hold whatever the store has storages for. -/
theorem Closed.pristine_withFrames {store : Store} (h : store.Closed)
    {contents : List (Array Value)}
    (hcontents : ∀ items ∈ contents, ∀ v ∈ items, v.Within store.heap.size) :
    (store.withFrames contents).Pristine := by
  cases contents with
  | nil =>
    have hframes : (Frames.single ⟨store.heap.size⟩).toList = (allocAll store.heap [#[]]).1 := rfl
    exact pristine_of_allocAll h.heap (by simp) h.bindings hframes
  | cons outermost inner =>
    let frames := (allocAll (store.heap.alloc outermost).2 inner).1.foldl Frames.openOne
      (.single (store.heap.alloc outermost).1)
    have hframes : frames.toList = (allocAll store.heap (outermost :: inner)).1 := by
      rw [toList_foldl_openOne]
      rfl
    have hpristine : Pristine
        { store with heap := (allocAll store.heap (outermost :: inner)).2, frames } :=
      pristine_of_allocAll h.heap hcontents h.bindings hframes
    exact hpristine

/-- Private copies of a host's variables leave the open stacks to themselves. -/
theorem Pristine.snapshot {store : Store} (h : store.Pristine) {limit : Nat}
    {bindings copies : Dictionary} {heap : Heap}
    (hsnapshot : bindings.snapshot limit store.heap = .ok (copies, heap)) :
    Pristine { store with heap, bindings := copies } := by
  obtain ⟨hsize, hclosed, hwithin⟩ := Heap.closed_copying.snapshot h.closed.heap hsnapshot
  obtain ⟨hapart, hbeyond⟩ := (Heap.Apart.refl store.heap).snapshot hsnapshot
  refine ⟨⟨hclosed, hwithin, fun ref hmem => ?_⟩, fun ref hmem => ?_⟩
  · exact Nat.lt_of_lt_of_le (h.closed.frames ref hmem) hsize
  · have hunaliased := h.unaliased ref hmem
    refine ⟨Nat.lt_of_lt_of_le hunaliased.there hsize, fun other hv => ?_, fun entry hentry hv => ?_,
      hunaliased.once⟩
    · rcases Nat.lt_or_ge other.index store.heap.size with hold | hnew
      · rw [hapart.read_eq other hold] at hv
        exact hunaliased.storages other hv
      · exact absurd hunaliased.there (Nat.not_lt.mpr (hapart.beyond other hnew _ hv))
    · have hcopy := hbeyond entry hentry
      rw [hv] at hcopy
      exact absurd hunaliased.there (Nat.not_lt.mpr hcopy)

end Store

end GlyphStack
