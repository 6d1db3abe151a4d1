/-!
Values and the heap that holds their arrays. An array value is only a reference to a storage of the
heap, so copies of the value share its contents; stacks are storages too. Every storage keeps its
reference for good: new ones come after all others and none is ever given up.
-/

namespace GlyphStack

/-- A reference to an array storage. -/
structure Ref where
  index : Nat
deriving DecidableEq, Repr

/-- A value of a program. -/
inductive Value where
  | string (text : String)
  | number (x : Float)
  | array (ref : Ref)
  | absent
deriving Inhabited

/-- The four kinds of value. -/
inductive Kind where
  | string
  | number
  | array
  | absent
deriving DecidableEq, Repr

/-- The name of a kind. -/
def Kind.name : Kind → String
  | .string => "String"
  | .number => "Number"
  | .array => "Array"
  | .absent => "Absent"

/-- The kind of a value. -/
def Value.kind : Value → Kind
  | .string _ => .string
  | .number _ => .number
  | .array _ => .array
  | .absent => .absent

theorem Value.array_or_kind_ne (v : Value) : (∃ ref, v = .array ref) ∨ v.kind ≠ .array := by
  cases v with
  | array ref => exact .inl ⟨ref, rfl⟩
  | string => exact .inr nofun
  | number => exact .inr nofun
  | absent => exact .inr nofun

/-- What an operand may be: of any kind, or of one. -/
inductive Expected where
  | any
  | kind (k : Kind)
deriving DecidableEq, Repr

/-- The name of an expectation. -/
def Expected.name : Expected → String
  | .any => "Any"
  | .kind k => k.name

/-- Whether a value meets the expectation. -/
def Expected.accepts (expected : Expected) (v : Value) : Bool :=
  match expected with
  | .any => true
  | .kind k => v.kind = k

/-- The array storages, each found by its reference. -/
structure Heap where
  storages : Array (Array Value)

namespace Heap

/-- The heap without a storage. -/
def empty : Heap := ⟨#[]⟩

instance : Inhabited Heap := ⟨empty⟩

/-- How many storages there are. -/
def size (heap : Heap) : Nat :=
  heap.storages.size

/-- The contents of a storage; a reference that none has reads as empty. -/
def read (heap : Heap) (ref : Ref) : Array Value :=
  heap.storages.getD ref.index #[]

/-- Changes the contents of one storage. -/
def update (heap : Heap) (ref : Ref) (change : Array Value → Array Value) : Heap :=
  ⟨heap.storages.modify ref.index change⟩

/-- Adds a storage. -/
def alloc (heap : Heap) (items : Array Value) : Ref × Heap :=
  (⟨heap.storages.size⟩, ⟨heap.storages.push items⟩)

@[simp] theorem size_update (heap : Heap) (ref : Ref) (change : Array Value → Array Value) :
    (heap.update ref change).size = heap.size := by
  simp [size, update]

@[simp] theorem size_alloc (heap : Heap) (items : Array Value) :
    (heap.alloc items).2.size = heap.size + 1 := by
  simp [size, alloc]

/-- Changing a storage changes what is read there, if it exists. -/
theorem read_update_self {heap : Heap} {ref : Ref} (change : Array Value → Array Value)
    (h : ref.index < heap.size) : (heap.update ref change).read ref = change (heap.read ref) := by
  have h' : ref.index < heap.storages.size := h
  simp [read, update, Array.getD_eq_getD_getElem?, Array.getElem_modify, h']

/-- Changing a storage leaves every other as it was. -/
theorem read_update_of_ne {heap : Heap} {ref other : Ref} (change : Array Value → Array Value)
    (h : other ≠ ref) : (heap.update ref change).read other = heap.read other := by
  have h' : ref.index ≠ other.index := fun e => h (by cases ref; cases other; simp_all)
  simp [read, update, Array.getD_eq_getD_getElem?, Array.getElem?_modify, h']

/-- A new storage holds its items. -/
theorem read_alloc_self (heap : Heap) (items : Array Value) :
    (heap.alloc items).2.read (heap.alloc items).1 = items := by
  simp [read, alloc, Array.getD_eq_getD_getElem?]

/-- A new storage leaves all storages as they were. -/
theorem read_alloc_of_lt {heap : Heap} (items : Array Value) {ref : Ref}
    (h : ref.index < heap.size) : (heap.alloc items).2.read ref = heap.read ref := by
  have h' : ref.index < heap.storages.size := h
  simp [read, alloc, Array.getD_eq_getD_getElem?, Array.getElem?_push, Nat.ne_of_lt h']

end Heap

end GlyphStack
