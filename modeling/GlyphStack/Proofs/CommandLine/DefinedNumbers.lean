import GlyphStack.CommandLine.Session
import GlyphStack.Proofs.Number.Numeral

/-!
Numbers in definitions and numbers in programs. Two readers decide whether a text is a number: the
one of the command line when a variable is defined, and `readNumber` when a program uses a text as a
number. Blanks at the ends do not matter to either, and numerals are the same to both.

They differ in the names they know. Programs have six spellings of the infinities and no other; the
command line takes an infinity or not-a-number in letters of any case. For not-a-number that makes no
difference, because a text that is no number stands for not-a-number as well. For an infinity in
other letters it does: `inf` defines an infinity, and the text `inf` is not a number. There is no
difference besides (`toNumber_of_definedValue`).
-/

namespace GlyphStack.CommandLine.Invocation

open Number

/-! ## 1. Names of the infinities -/

/-- The names that programs have for the infinity of a sign. -/
def infinityNames (negative : Bool) : List String :=
  if negative then ["-Inf", "-Infinity"] else ["Inf", "+Inf", "Infinity", "+Infinity"]

/-- The letters of a text in lower case, without blanks at its ends and without a sign. -/
def letters (text : String) : List Char :=
  (Numeral.takeSign (Text.trim text.toList)).2.map Char.toLower

/-- The text names an infinity, but in letters that programs do not know it by. -/
structure MisnamesInfinity (text : String) : Prop where
  named : letters text = "inf".toList ∨ letters text = "infinity".toList
  unknown : ∀ negative, String.ofList (Text.trim text.toList) ∉ infinityNames negative

section

variable {text : String} {cs : List Char} {negative : Bool}

/-- What programs have as a name is that infinity. -/
theorem readNumber_of_mem_infinityNames
    (h : String.ofList (Text.trim text.toList) ∈ infinityNames negative) :
    readNumber text = infinity negative := by
  have hne : Text.trim text.toList ≠ [] := by
    intro hempty
    rw [hempty] at h
    cases negative <;> simp [infinityNames] at h
  cases negative with
  | false =>
    have hname := by simpa [infinityNames] using h
    simp only [readNumber]
    rw [if_neg hne, if_pos hname]
  | true =>
    have hname := by simpa [infinityNames] using h
    simp only [readNumber]
    rw [if_neg hne, if_neg (by rcases hname with h | h <;> simp [h]), if_pos hname]

/-- A text that is neither blank nor a numeral nor a name of an infinity is not a number. -/
theorem readNumber_eq_nan (hne : Text.trim text.toList ≠ [])
    (hnames : ∀ negative, String.ofList (Text.trim text.toList) ∉ infinityNames negative)
    (hread : Numeral.read? (Text.trim text.toList) = none) : readNumber text = nan := by
  have hpositive := by simpa [infinityNames] using hnames false
  have hnegative := by simpa [infinityNames] using hnames true
  simp only [readNumber]
  rw [if_neg hne, if_neg (by simp [hpositive]), if_neg (by simp [hnegative]), hread]

/-- The command line knows the names that programs have. -/
theorem readNamedNumber?_of_mem (h : String.ofList cs ∈ infinityNames negative) :
    readNamedNumber? cs = some (infinity negative) := by
  have hcs {name : String} (hname : String.ofList cs = name) : cs = name.toList := by
    rw [← hname, String.toList_ofList]
  cases negative with
  | false =>
    have hname := by simpa [infinityNames] using h
    rcases hname with h | h | h | h <;> rw [hcs h] <;> rfl
  | true =>
    have hname := by simpa [infinityNames] using h
    rcases hname with h | h <;> rw [hcs h] <;> rfl

/-- What the command line knows by name is an infinity or not-a-number, and the letters say which. -/
theorem of_readNamedNumber? {x : Float}
    (h : readNamedNumber? (Text.trim text.toList) = some x) :
    ((letters text = "inf".toList ∨ letters text = "infinity".toList) ∧
      ∃ negative, x = infinity negative) ∨
    (letters text = "nan".toList ∧ x = nan) := by
  have hletters {name : String} (hname : String.ofList (letters text) = name) :
      letters text = name.toList := by
    rw [← hname, String.toList_ofList]
  simp only [readNamedNumber?] at h
  split_ifs at h with hinfinity hnan
  · exact .inl ⟨hinfinity.imp hletters hletters, _, (Option.some.inj h).symm⟩
  · exact .inr ⟨hletters hnan, (Option.some.inj h).symm⟩

/-- The letters of a text of characters of numerals are such characters too. -/
theorem isDecimal_of_mem_letters (h : ∀ c ∈ Text.trim text.toList, Numeral.isDecimal c = true)
    {letter : Char} (hletter : letter ∈ letters text) : Numeral.isDecimal letter = true := by
  obtain ⟨c, hc, rfl⟩ := List.mem_map.mp hletter
  exact Numeral.isDecimal_toLower (h c (Numeral.mem_of_mem_takeSign hc))

/-- A numeral is no name of an infinity, in whatever letters. -/
theorem not_misnamesInfinity_of_read? {numeral : Numeral}
    (hread : Numeral.read? (Text.trim text.toList) = some numeral) : ¬ MisnamesInfinity text := by
  rintro ⟨hnamed, -⟩
  have hmem : 'i' ∈ letters text := by
    rcases hnamed with hname | hname <;> rw [hname] <;> decide
  have hdecimal := isDecimal_of_mem_letters (fun _ => Numeral.isDecimal_of_read? hread) hmem
  contradiction

/-- No text of characters of numerals is a name, in whatever letters. -/
theorem readNamedNumber?_of_isDecimal
    (h : ∀ c ∈ Text.trim text.toList, Numeral.isDecimal c = true) :
    readNamedNumber? (Text.trim text.toList) = none := by
  cases hnamed : readNamedNumber? (Text.trim text.toList) with
  | none => rfl
  | some x =>
    have hmem : 'n' ∈ letters text := by
      rcases of_readNamedNumber? hnamed with ⟨hname | hname, -⟩ | ⟨hname, -⟩ <;> rw [hname] <;> decide
    have hdecimal := isDecimal_of_mem_letters h hmem
    contradiction

theorem infinity_ne_nan (negative : Bool) : infinity negative ≠ nan := by
  intro h
  have hnan : isNaN (infinity negative) = isNaN nan := congrArg isNaN h
  cases negative <;> exact absurd hnan (by decide +kernel)

/-! ## 2. The two readers -/

/-- A name that is no numeral is the same number to both readers, if it is not a misnamed infinity;
one of these is not a number to programs. -/
theorem readNumber_of_readNamedNumber? {x : Float}
    (hread : Numeral.read? (Text.trim text.toList) = none)
    (hnamed : readNamedNumber? (Text.trim text.toList) = some x) :
    (readNumber text = x ↔ ¬ MisnamesInfinity text) ∧
      (MisnamesInfinity text → readNumber text = nan ∧ ∃ negative, x = infinity negative) := by
  by_cases hknown : ∃ negative, String.ofList (Text.trim text.toList) ∈ infinityNames negative
  · obtain ⟨negative, hmem⟩ := hknown
    have hmisnames : ¬ MisnamesInfinity text := fun h => h.unknown negative hmem
    rw [readNamedNumber?_of_mem hmem, Option.some.injEq] at hnamed
    refine ⟨iff_of_true ?_ hmisnames, fun h => absurd h hmisnames⟩
    rw [readNumber_of_mem_infinityNames hmem, hnamed]
  · have hunknown := not_exists.mp hknown
    have hne : Text.trim text.toList ≠ [] := by
      intro hempty
      have hnone : readNamedNumber? [] = none := rfl
      rw [hempty, hnone] at hnamed
      contradiction
    rw [readNumber_eq_nan hne hunknown hread]
    rcases of_readNamedNumber? hnamed with ⟨hletters, negative, rfl⟩ | ⟨hletters, rfl⟩
    · have hmisnames : MisnamesInfinity text := ⟨hletters, hunknown⟩
      exact ⟨iff_of_false (infinity_ne_nan negative).symm (not_not_intro hmisnames),
        fun _ => ⟨rfl, negative, rfl⟩⟩
    · have hmisnames : ¬ MisnamesInfinity text := by
        rintro ⟨hname | hname, -⟩ <;> rw [hletters] at hname <;> exact absurd hname (by decide)
      exact ⟨iff_of_true rfl hmisnames, fun h => absurd h hmisnames⟩

/-- A text that neither is a numeral nor has a name is blank, or it is not a number to programs. -/
theorem blank_or_readNumber_eq_nan (hread : Numeral.read? (Text.trim text.toList) = none)
    (hnamed : readNamedNumber? (Text.trim text.toList) = none) :
    Text.trim text.toList = [] ∨ readNumber text = nan := by
  refine or_iff_not_imp_left.mpr fun hne => readNumber_eq_nan hne ?_ hread
  intro negative hmem
  rw [readNamedNumber?_of_mem hmem] at hnamed
  contradiction

end

/-- **A text that a definition takes as a number is that number to programs**, unless it names an
infinity in letters that programs do not know it by, which are not a number to them. A text that a
definition leaves as it is, is blank or not a number to programs either. -/
theorem toNumber_of_definedValue (heap : Heap) (text : String) :
    (∀ x, definedValue text = .number x →
      (heap.toNumber (.string text) = x ↔ ¬ MisnamesInfinity text) ∧
      (MisnamesInfinity text →
        heap.toNumber (.string text) = nan ∧ ∃ negative, x = infinity negative)) ∧
    ∀ other, definedValue text = .string other →
      other = text ∧ (Text.trim text.toList = [] ∨ heap.toNumber (.string text) = nan) := by
  rw [show heap.toNumber (.string text) = readNumber text from rfl]
  unfold definedValue
  dsimp only
  cases hread : Numeral.read? (Text.trim text.toList) with
  | some numeral =>
    refine ⟨?_, nofun⟩
    rintro x ⟨⟩
    have hknown := not_misnamesInfinity_of_read? hread
    exact ⟨iff_of_true (readNumber_of_read?_trim hread) hknown, fun h => absurd h hknown⟩
  | none =>
    cases hnamed : readNamedNumber? (Text.trim text.toList) with
    | some y =>
      refine ⟨?_, nofun⟩
      rintro x ⟨⟩
      exact readNumber_of_readNamedNumber? hread hnamed
    | none =>
      refine ⟨nofun, ?_⟩
      rintro other ⟨⟩
      exact ⟨rfl, blank_or_readNumber_eq_nan hread hnamed⟩

/-- The command line takes `inf` for an infinity, and programs do not take it for a number. -/
theorem definedValue_in_small_letters :
    definedValue "inf" = .number (infinity false) ∧
      Heap.empty.toNumber (.string "inf") = nan ∧ infinity false ≠ nan :=
  ⟨rfl, rfl, infinity_ne_nan false⟩

end GlyphStack.CommandLine.Invocation
