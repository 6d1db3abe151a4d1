import GlyphStack.Proofs.Store.Copies
import GlyphStack.Store.Basic

/-!
Storages that a host had before a program was started on its heap, and how the program is kept away
from them. `Reaches` says which storages can be come to from a value or from a store. A heap is
`Apart` from a host's if the storages of the host read as they did and no other storage holds a
reference to one of them. So nothing of the host can be come to from beyond (`Apart.reaches`), and
that is what allocating, changing a storage beyond, and copying a host's value preserve. The
condition is on all storages beyond, and not only on those that can be come to, so a change of one
storage needs no account of the ways that lead to it.
-/

namespace GlyphStack

/-! ## 1. Coming to storages -/

/-- From the value one comes to the storage, through arrays in each other. -/
inductive Heap.Reaches (heap : Heap) : Value → Ref → Prop where
  | self (ref : Ref) : heap.Reaches (.array ref) ref
  | item {ref target : Ref} {v : Value} (hitem : v ∈ heap.read ref) (h : Reaches heap v target) :
      heap.Reaches (.array ref) target

/-- From a storage that one comes to, one comes to the arrays in it. -/
theorem Heap.Reaches.item_of_mem {heap : Heap} {v : Value} {between target : Ref}
    (h : heap.Reaches v between) (hitem : .array target ∈ heap.read between) :
    heap.Reaches v target := by
  induction h with
  | self ref => exact .item hitem (.self target)
  | item hstep _ ih => exact .item hstep (ih hitem)

/-- From an open stack or a variable of the store one comes to the storage. -/
inductive Store.Reaches (store : Store) (target : Ref) : Prop where
  | frame {ref : Ref} (hframe : ref ∈ store.frames.toList)
      (h : store.heap.Reaches (.array ref) target)
  | binding {entry : String × Value} (hentry : entry ∈ store.bindings.entries)
      (h : store.heap.Reaches entry.2 target)

/-- The value refers to none of the first `size` storages. -/
def Value.Beyond (size : Nat) : Value → Prop
  | .array ref => size ≤ ref.index
  | _ => True

theorem Value.beyond_of_kind {v : Value} (h : v.kind ≠ .array) (size : Nat) : v.Beyond size := by
  cases v with
  | array ref => simp [kind] at h
  | string => trivial
  | number => trivial
  | absent => trivial

/-! ## 2. A heap apart from a host's -/

namespace Heap

/-- The storages of the host read as they did, and the others refer to none of them. -/
structure Apart (host heap : Heap) : Prop where
  size_le : host.size ≤ heap.size
  read_eq : ∀ ref, ref.index < host.size → heap.read ref = host.read ref
  beyond : ∀ ref, host.size ≤ ref.index → ∀ v ∈ heap.read ref, v.Beyond host.size

/-- Beyond the last storage nothing is read. -/
theorem read_of_le {heap : Heap} {ref : Ref} (h : heap.size ≤ ref.index) :
    heap.read ref = #[] := by
  have h' : heap.storages.size ≤ ref.index := h
  simp [read, Array.getD_eq_getD_getElem?, h']

/-- What stands in a storage after one was changed stood there before, or the change put it
there. -/
theorem mem_read_update {heap : Heap} {ref other : Ref} {change : Array Value → Array Value}
    {v : Value} (h : v ∈ (heap.update ref change).read other) :
    v ∈ heap.read other ∨ other = ref ∧ v ∈ change (heap.read ref) := by
  by_cases hother : other = ref
  · subst hother
    rcases Nat.lt_or_ge other.index heap.size with hlt | hle
    · rw [read_update_self change hlt] at h
      exact .inr ⟨rfl, h⟩
    · rw [read_of_le ((size_update heap other change).symm ▸ hle)] at h
      simp at h
  · rw [read_update_of_ne change hother] at h
    exact .inl h

/-- What stands in a storage after one was added stood there before, or it is an item of the new
one. -/
theorem mem_read_alloc {heap : Heap} {items : Array Value} {ref : Ref} {v : Value}
    (h : v ∈ (heap.alloc items).2.read ref) : v ∈ heap.read ref ∨ v ∈ items := by
  rcases Nat.lt_trichotomy ref.index heap.size with hlt | heq | hgt
  · rw [read_alloc_of_lt items hlt] at h
    exact .inl h
  · obtain rfl : ref = (heap.alloc items).1 := by
      cases ref
      exact congrArg Ref.mk heq
    rw [read_alloc_self] at h
    exact .inr h
  · rw [read_of_le (by rw [size_alloc]; exact hgt)] at h
    simp at h

/-- A new empty storage reads as it would have read before. -/
theorem read_alloc_empty (heap : Heap) (ref : Ref) :
    (heap.alloc #[]).2.read ref = heap.read ref := by
  rcases Nat.lt_or_ge ref.index heap.size with hlt | hge
  · exact read_alloc_of_lt #[] hlt
  · have hnone (v : Value) : v ∉ (heap.alloc #[]).2.read ref := by
      intro hv
      simpa [read_of_le hge] using mem_read_alloc hv
    rw [Array.eq_empty_iff_forall_not_mem.mpr hnone, read_of_le hge]

namespace Apart

variable {host heap : Heap}

theorem refl (host : Heap) : Apart host host where
  size_le := Nat.le_refl _
  read_eq _ _ := rfl
  beyond ref h v hmem := by
    rw [read_of_le h] at hmem
    simp at hmem

/-- A new storage whose items are beyond the host is beyond it too. -/
theorem alloc (h : Apart host heap) {items : Array Value}
    (hitems : ∀ v ∈ items, v.Beyond host.size) :
    Apart host (heap.alloc items).2 ∧ host.size ≤ (heap.alloc items).1.index := by
  refine ⟨⟨?_, ?_, ?_⟩, h.size_le⟩
  · rw [size_alloc]
    exact Nat.le_succ_of_le h.size_le
  · intro ref hlt
    rw [read_alloc_of_lt items (Nat.lt_of_lt_of_le hlt h.size_le), h.read_eq ref hlt]
  · intro ref hle v hmem
    rcases mem_read_alloc hmem with hmem | hmem
    · exact h.beyond ref hle v hmem
    · exact hitems v hmem

theorem alloc_empty (h : Apart host heap) :
    Apart host (heap.alloc #[]).2 ∧ host.size ≤ (heap.alloc #[]).1.index :=
  h.alloc (by simp)

/-- From a value beyond the host one comes to none of its storages. -/
theorem reaches (h : Apart host heap) {v : Value} {target : Ref} (hv : v.Beyond host.size)
    (hreach : heap.Reaches v target) : host.size ≤ target.index := by
  induction hreach with
  | self ref => exact hv
  | @item ref target v hitem _ ih => exact ih (h.beyond ref hv v hitem)

/-- Where a value of the host came to storages of the host only, it comes to the same ones. -/
theorem reaches_iff (h : Apart host heap) {v : Value} {target : Ref}
    (hclosed : ∀ ref, host.Reaches v ref → ref.index < host.size) :
    heap.Reaches v target ↔ host.Reaches v target := by
  constructor
  · intro hreach
    induction hreach with
    | self ref => exact .self ref
    | @item ref target v hitem _ ih =>
      rw [h.read_eq ref (hclosed ref (.self ref))] at hitem
      exact .item hitem (ih fun other hother => hclosed other (.item hitem hother))
  · intro hreach
    induction hreach with
    | self ref => exact .self ref
    | @item ref target v hitem _ ih =>
      have hitem' : v ∈ heap.read ref := by
        rw [h.read_eq ref (hclosed ref (.self ref))]
        exact hitem
      exact .item hitem' (ih fun other hother => hclosed other (.item hitem hother))

/-! ## 3. Copies -/

/-- What is made of storages beyond the host is beyond it. -/
theorem copying (host : Heap) : Copying (Apart host) fun _ v => v.Beyond host.size where
  plain h := Value.beyond_of_kind h _
  mono _ h := h
  alloc h hitems := h.alloc hitems

/-- The copy of a value is made beyond the host, whatever is copied. -/
theorem deepCopy (h : Apart host heap) {limit : Nat} {v copy : Value} {after : Heap}
    (hcopy : heap.deepCopy limit v = some (copy, after)) : Apart host after :=
  ((copying host).deepCopy h hcopy).2.1

/-- The copies of a dictionary's values are made beyond the host, whatever is copied. -/
theorem snapshot (h : Apart host heap) {limit : Nat} {bindings copies : Dictionary}
    {after : Heap} (hsnapshot : bindings.snapshot limit heap = .ok (copies, after)) :
    Apart host after ∧ ∀ entry ∈ copies.entries, entry.2.Beyond host.size :=
  ((copying host).snapshot h hsnapshot).2

end Apart

end Heap

/-! ## 4. A store apart from a host's heap -/

namespace Store

/-- The heap is apart from the host's, and the open stacks and the variables are beyond it. -/
structure Apart (host : Heap) (store : Store) : Prop where
  heap : host.Apart store.heap
  frames : ∀ ref ∈ store.frames.toList, host.size ≤ ref.index
  bindings : ∀ entry ∈ store.bindings.entries, entry.2.Beyond host.size

namespace Apart

variable {host : Heap} {store : Store}

/-- From a store apart from the host one comes to none of its storages. -/
theorem reaches (h : store.Apart host) {target : Ref} (hreach : store.Reaches target) :
    host.size ≤ target.index := by
  cases hreach with
  | frame hframe hreach => exact h.heap.reaches (v := .array _) (h.frames _ hframe) hreach
  | binding hentry hreach => exact h.heap.reaches (h.bindings _ hentry) hreach

theorem current (h : store.Apart host) : host.size ≤ store.frames.current.index :=
  h.frames _ (List.mem_append_right _ List.mem_cons_self)

theorem stack (h : store.Apart host) : ∀ v ∈ store.stack, v.Beyond host.size :=
  h.heap.beyond _ h.current

end Apart

/-- A new store on the host's heap is apart from it. -/
theorem apart_onHeap (host : Heap) : (onHeap host).Apart host := by
  obtain ⟨hheap, href⟩ := (Heap.Apart.refl host).alloc_empty
  refine ⟨hheap, fun ref hmem => ?_, by simp [onHeap, Dictionary.empty]⟩
  obtain rfl : ref = (host.alloc #[]).1 := by
    simpa [onHeap, Frames.single, Frames.toList] using hmem
  exact href

end Store

end GlyphStack
