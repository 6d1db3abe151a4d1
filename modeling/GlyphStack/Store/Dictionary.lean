import GlyphStack.Fault
import GlyphStack.Value.Copy

/-!
Variables: a dictionary from names to values, and its private copies.
-/

namespace GlyphStack

/-- Names with their values, each name once, in the order in which they were first stored. -/
structure Dictionary where
  entries : List (String × Value)

namespace Dictionary

/-- The dictionary without a name. -/
def empty : Dictionary := ⟨[]⟩

instance : Inhabited Dictionary := ⟨empty⟩

/-- The value of a name. -/
def get? (bindings : Dictionary) (name : String) : Option Value :=
  bindings.entries.lookup name

/-- Replaces the value of a name in a list of entries, or adds the name at its end. -/
def putEntry (name : String) (v : Value) : List (String × Value) → List (String × Value)
  | [] => [(name, v)]
  | entry :: rest =>
      if entry.1 = name then (name, v) :: rest else entry :: putEntry name v rest

/-- Gives a name a value. -/
def put (bindings : Dictionary) (name : String) (v : Value) : Dictionary :=
  ⟨putEntry name v bindings.entries⟩

theorem lookup_putEntry_self (name : String) (v : Value) (entries : List (String × Value)) :
    (putEntry name v entries).lookup name = some v := by
  induction entries with
  | nil => simp [putEntry]
  | cons entry rest ih =>
      obtain ⟨other, w⟩ := entry
      by_cases h : other = name
      · simp [putEntry, h]
      · have h' : (name == other) = false := by simpa using fun e => h e.symm
        simp [putEntry, h, List.lookup_cons, h', ih]

theorem lookup_putEntry_of_ne {name other : String} (h : other ≠ name) (v : Value)
    (entries : List (String × Value)) :
    (putEntry name v entries).lookup other = entries.lookup other := by
  induction entries with
  | nil =>
      have h' : (other == name) = false := by simpa using h
      simp [putEntry, List.lookup_cons, h']
  | cons entry rest ih =>
      obtain ⟨first, w⟩ := entry
      by_cases hf : first = name
      · subst hf
        have h' : (other == first) = false := by simpa using h
        simp [putEntry, List.lookup_cons, h']
      · cases ho : other == first <;> simp [putEntry, hf, List.lookup_cons, ho, ih]

/-- A name has the value that was put last. -/
theorem get?_put_self (bindings : Dictionary) (name : String) (v : Value) :
    (bindings.put name v).get? name = some v :=
  lookup_putEntry_self name v bindings.entries

/-- Putting a value leaves all other names as they were. -/
theorem get?_put_of_ne (bindings : Dictionary) {name other : String} (h : other ≠ name)
    (v : Value) : (bindings.put name v).get? other = bindings.get? other :=
  lookup_putEntry_of_ne h v bindings.entries

/-- How many names have a value. -/
def size (bindings : Dictionary) : Nat :=
  bindings.entries.length

/-- Whether no name has a value. -/
def isEmpty (bindings : Dictionary) : Bool :=
  bindings.entries.isEmpty

/-- Copies entries one after the other. -/
def copyEntries (limit : Nat) (heap : Heap) :
    List (String × Value) → Option (List (String × Value) × Heap)
  | [] => some ([], heap)
  | (name, v) :: rest => do
      let (copy, heap) ← heap.deepCopy limit v
      let (copies, heap) ← copyEntries limit heap rest
      return ((name, copy) :: copies, heap)

/-- A dictionary with the same names and a deep copy of every value. It fails if arrays lie in each
other deeper than `limit`. -/
def snapshot (bindings : Dictionary) (limit : Nat) (heap : Heap) :
    Except Fault (Dictionary × Heap) :=
  match copyEntries limit heap bindings.entries with
  | some (entries, heap) => .ok (⟨entries⟩, heap)
  | none => .error (.nesting limit)

end Dictionary

end GlyphStack
