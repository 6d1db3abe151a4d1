import GlyphStack.Text.Quoted
import GlyphStack.Number.Layout
import GlyphStack.Value.Basic

/-!
The text of a value. A text stands for itself; inside an array it is quoted. An array that lies in
itself, or too deep, is cut off where that shows.
-/

namespace GlyphStack.Heap

/-- What stands for an array that is not written out. -/
def cutOff : List Char := "[...]".toList

/-- The text of a value inside arrays; `path` holds the arrays around it, innermost first, and
`depth` says how many more may be opened. -/
def renderWithin (heap : Heap) : (depth : Nat) → (path : List Ref) → Value → List Char
  | _, _, .string text => Text.quoted text.toList
  | _, _, .number x => Number.text x
  | _, _, .absent => "undef".toList
  | 0, _, .array _ => cutOff
  | depth + 1, path, .array ref =>
      if ref ∈ path then cutOff
      else
        let items := (heap.read ref).toList.map (renderWithin heap depth (ref :: path))
        '[' :: [',', ' '].intercalate items ++ [']']

/-- The text of a value, with at most `limit` arrays in each other. -/
def render (heap : Heap) (limit : Nat) : Value → String
  | .string text => text
  | v => String.ofList (heap.renderWithin limit [] v)

/-- A value has the text that it has inside arrays, but for a text, which stands for itself. -/
theorem render_eq_of_renderWithin_eq {heap other : Heap} {limit limit' : Nat} {v : Value}
    (h : other.renderWithin limit' [] v = heap.renderWithin limit [] v) :
    other.render limit' v = heap.render limit v := by
  cases v with
  | string => rfl
  | number => exact congrArg String.ofList h
  | array => exact congrArg String.ofList h
  | absent => exact congrArg String.ofList h

/-- The nesting limit of texts that are written where no other limit is known. -/
def defaultNesting : Nat := 256

end GlyphStack.Heap
