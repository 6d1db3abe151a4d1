import GlyphStack.Value.Basic

/-!
Deep copies: a value with all its arrays replaced by new ones. Every way into an array gets a copy
of its own, so the copy is a tree.
-/

namespace GlyphStack.Heap

/-- Copies the items of a list one after the other. -/
def copyItems (copyItem : Heap → Value → Option (Value × Heap)) (heap : Heap) :
    List Value → Option (List Value × Heap)
  | [] => some ([], heap)
  | v :: vs => do
      let (copy, heap) ← copyItem heap v
      let (copies, heap) ← copyItems copyItem heap vs
      return (copy :: copies, heap)

/-- A deep copy with at most `limit` arrays in each other; there is none if they lie deeper. -/
def deepCopy : (limit : Nat) → Heap → Value → Option (Value × Heap)
  | 0, _, .array _ => none
  | limit + 1, heap, .array ref => do
      let (items, heap) ← copyItems (deepCopy limit) heap (heap.read ref).toList
      let (copy, heap) := heap.alloc items.toArray
      return (.array copy, heap)
  | _, heap, v => some (v, heap)

end GlyphStack.Heap
