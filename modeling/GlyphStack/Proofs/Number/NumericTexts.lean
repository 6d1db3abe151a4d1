import GlyphStack.Proofs.CommandLine.DefinedNumbers
import GlyphStack.Proofs.Number.Rounding

/-!
Which texts are numbers. As a number, a text is first looked up among the names of the infinities, then
it has to hold characters of numerals only, and what is left goes to a reader that knows names of its
own, in letters of any case. After the two layers before it, that reader never meets one of its names
(`readNumber_eq_readInLayers`), so the grammar of decimals is all that counts, and what is made of a
decimal is the double nearest to the value of its digits in their places.
-/

namespace GlyphStack.Number

open Numeral CommandLine.Invocation

/-! ## 1. Values -/

namespace DecimalText

variable (decimal : DecimalText)

/-- The digits in their places. The last one before the point counts ones, or the power of ten that
the exponent says. -/
def value : ℚ :=
  signed decimal.sign.isMinus
    (placed (decimal.whole ++ decimal.fraction.getD [])
      (decimal.whole.length - 1 + exponentValue decimal.exponent))

/-- The numeral has the value of the digits in their places. -/
theorem value_numeral : decimal.numeral.value = decimal.value := by
  have hplaces : (decimal.whole.length : Int) - 1 + exponentValue decimal.exponent + 1 -
      (decimal.whole ++ decimal.fraction.getD []).length =
      exponentValue decimal.exponent - (decimal.fraction.getD []).length := by
    rw [List.length_append]
    push_cast
    ring
  rw [value, placed_eq, hplaces]
  rfl

end DecimalText

/-! ## 2. Texts as numbers -/

/-- A reader that takes numerals, and infinities and not-a-number by name in letters of any case. -/
def readAnyNumber? (cs : List Char) : Option Float :=
  match read? cs with
  | some numeral => some numeral.toFloat
  | none => readNamedNumber? cs

/-- The number of a text in layers: the spellings that are known as they stand, then a look at the
characters, and only then a reader that takes more than numerals. -/
def readInLayers (text : String) : Float :=
  let trimmed := Text.trim text.toList
  let named := String.ofList trimmed
  if trimmed = [] then zero
  else if named ∈ infinityNames false then infinity false
  else if named ∈ infinityNames true then infinity true
  else if named = "NaN" then nan
  else if trimmed.all isDecimal then (readAnyNumber? trimmed).getD nan
  else nan

section

variable {text : String}

/-- **The layers come to the grammar.** What the look at the characters keeps back is no numeral, and
what it lets through has no name. -/
theorem readNumber_eq_readInLayers (text : String) : readNumber text = readInLayers text := by
  by_cases hempty : Text.trim text.toList = []
  · simp only [readNumber, readInLayers, if_pos hempty]
  by_cases hpositive : String.ofList (Text.trim text.toList) ∈ infinityNames false
  · simp only [readInLayers, if_neg hempty, if_pos hpositive]
    exact readNumber_of_mem_infinityNames hpositive
  by_cases hnegative : String.ofList (Text.trim text.toList) ∈ infinityNames true
  · simp only [readInLayers, if_neg hempty, if_neg hpositive, if_pos hnegative]
    exact readNumber_of_mem_infinityNames hnegative
  simp only [readInLayers, if_neg hempty, if_neg hpositive, if_neg hnegative]
  cases hread : read? (Text.trim text.toList) with
  | some numeral =>
    have hname : String.ofList (Text.trim text.toList) ≠ "NaN" := by
      intro hname
      have hnone : read? "NaN".toList = none := by decide
      rw [← hname, String.toList_ofList, hread] at hnone
      contradiction
    have hall : (Text.trim text.toList).all isDecimal = true :=
      List.all_eq_true.mpr fun _ => isDecimal_of_read? hread
    rw [if_neg hname, if_pos hall, readNumber_of_read?_trim hread]
    simp only [readAnyNumber?, hread, Option.getD_some]
  | none =>
    have hnames : ∀ negative, String.ofList (Text.trim text.toList) ∉ infinityNames negative := by
      intro negative
      cases negative <;> assumption
    rw [readNumber_eq_nan hempty hnames hread]
    split_ifs with hname hall
    · rfl
    · rw [List.all_eq_true] at hall
      simp only [readAnyNumber?, hread, readNamedNumber?_of_isDecimal hall, Option.getD_none]
    · rfl

theorem NearestTo.isNaN_eq_false {negative : Bool} {number : ℚ} {x : Float}
    (h : NearestTo negative number x) : isNaN x = false := by
  rw [← Bool.not_eq_true, isNaN_iff_parts]
  cases h with
  | finite mantissa exponent _ hparts => simp [hparts]
  | infinite _ hparts => simp [hparts]

/-- A text that is a decimal but for blanks at its ends stands for the double nearest to it. -/
theorem nearestTo_readNumber {decimal : DecimalText}
    (h : decimal.text = Text.trim text.toList) :
    NearestTo decimal.sign.isMinus decimal.value (readNumber text) := by
  have hread : read? (Text.trim text.toList) = some decimal.numeral :=
    read?_eq_some_iff.mpr ⟨decimal, h, rfl⟩
  rw [readNumber_of_read?_trim hread, ← decimal.value_numeral]
  exact nearestTo_toFloat decimal.numeral

end

/-- **Which texts are numbers.** A text of blanks is zero, and the names of the infinities are these.
Any other text, without the blanks at its ends, either is a decimal, and then it is the double nearest
to the value of its digits in their places, or it is not a number. -/
theorem toNumber_accepts_grammar (heap : Heap) (text : String) :
    let trimmed := Text.trim text.toList
    let x := heap.toNumber (.string text)
    (trimmed = [] → x = zero) ∧
      (∀ negative, String.ofList trimmed ∈ infinityNames negative → x = infinity negative) ∧
      (trimmed ≠ [] → (∀ negative, String.ofList trimmed ∉ infinityNames negative) →
        (isNaN x = false ↔ ∃ decimal : DecimalText, decimal.text = trimmed) ∧
          ∀ decimal : DecimalText, decimal.text = trimmed →
            NearestTo decimal.sign.isMinus decimal.value x) := by
  intro trimmed x
  have hx : x = readNumber text := rfl
  refine ⟨?_, ?_, ?_⟩
  · intro hempty
    rw [hx, readNumber_eq_readInLayers]
    exact if_pos hempty
  · intro negative hname
    exact readNumber_of_mem_infinityNames hname
  · intro hne hnames
    refine ⟨⟨?_, ?_⟩, fun decimal h => nearestTo_readNumber h⟩
    · intro hnumber
      by_contra hnone
      have hread : read? trimmed = none := by
        rw [Option.eq_none_iff_forall_ne_some]
        intro numeral hread
        obtain ⟨decimal, htext, -⟩ := read?_eq_some_iff.mp hread
        exact hnone ⟨decimal, htext⟩
      rw [hx, readNumber_eq_nan hne hnames hread] at hnumber
      exact absurd hnumber (by decide +kernel)
    · rintro ⟨decimal, h⟩
      exact (nearestTo_readNumber h).isNaN_eq_false

/-- ` -.5e+1 ` stands for the double nearest to -5, and `e5` is no decimal. -/
theorem toNumber_of_texts_with_exponent :
    NearestTo true (-5) (Heap.empty.toNumber (.string " -.5e+1 ")) ∧
      ¬ ∃ decimal : DecimalText, decimal.text = ['e', '5'] := by
  let exponent : WrittenExponent :=
    { letter := 'e', sign := .plus, digits := ['1'], isLetter := by decide, isDigit := by simp
      ne_nil := by decide }
  let decimal : DecimalText :=
    { sign := .minus, whole := [], fraction := some ['5'], exponent := some exponent
      isDigit := by simp, ne_nil := by decide }
  have hexponent : exponentValue decimal.exponent = 1 := rfl
  have hdigits : spelled ['5'] = 5 := rfl
  have hvalue : decimal.value = -5 := by
    rw [DecimalText.value, hexponent]
    norm_num [decimal, signed, placed, hdigits, WrittenSign.isMinus]
  obtain ⟨-, -, hdecimal⟩ := toNumber_accepts_grammar Heap.empty " -.5e+1 "
  obtain ⟨-, hnearest⟩ := hdecimal (by decide +kernel) (by decide +kernel)
  obtain ⟨-, -, hother⟩ := toNumber_accepts_grammar Heap.empty "e5"
  obtain ⟨hiff, -⟩ := hother (by decide +kernel) (by decide +kernel)
  refine ⟨hvalue ▸ hnearest decimal (by decide +kernel), ?_⟩
  exact (not_congr hiff).mp (by decide +kernel)

end GlyphStack.Number
