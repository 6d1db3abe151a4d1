import Mathlib.Data.List.TakeWhile
import GlyphStack.Value.Coerce

/-!
How numerals are read. `DecimalText` is the grammar of numerals with nothing else in it: an optional
sign, digits with an optional point among them, before them or behind them, and an optional exponent.
Reading accepts the texts of this grammar and no others (`read?_eq_some_iff`). So a numeral has no
blank at its ends and is none of the names of infinity, and as a text it stands for the double nearest
to it (`readNumber_of_read?`).
-/

namespace GlyphStack

namespace Number

open Numeral

/-! ## 1. The grammar -/

/-- A sign, or none. -/
inductive WrittenSign where
  | none
  | plus
  | minus
deriving Repr, DecidableEq

namespace WrittenSign

/-- The characters of a sign. -/
def text : WrittenSign → List Char
  | none => []
  | plus => ['+']
  | minus => ['-']

/-- Whether it makes what follows negative. -/
def isMinus : WrittenSign → Bool
  | minus => true
  | _ => false

end WrittenSign

/-- An exponent: its letter, an optional sign and at least one digit. -/
structure WrittenExponent where
  letter : Char
  sign : WrittenSign
  digits : List Char
  isLetter : letter = 'e' ∨ letter = 'E'
  isDigit : ∀ d ∈ digits, d.isDigit = true
  ne_nil : digits ≠ []

namespace WrittenExponent

/-- The characters of an exponent. -/
def text (exponent : WrittenExponent) : List Char :=
  exponent.letter :: (exponent.sign.text ++ exponent.digits)

/-- The whole number that an exponent spells. -/
def value (exponent : WrittenExponent) : Int :=
  if exponent.sign.isMinus then -(spelled exponent.digits : Int) else spelled exponent.digits

end WrittenExponent

/-- A decimal as it is written: an optional sign, digits, a point and digits after it, and an optional
exponent. There may be no point, and there may be no digits on one side of it, but not on both. -/
structure DecimalText where
  sign : WrittenSign
  whole : List Char
  /-- What stands behind the point, if there is one. -/
  fraction : Option (List Char)
  exponent : Option WrittenExponent
  isDigit : ∀ d ∈ whole ++ fraction.getD [], d.isDigit = true
  ne_nil : whole ≠ [] ∨ fraction.getD [] ≠ []

/-- The point and the digits behind it. -/
def fractionText : Option (List Char) → List Char
  | none => []
  | some fraction => '.' :: fraction

/-- The exponent as it is written, if there is one. -/
def exponentPart : Option WrittenExponent → List Char
  | none => []
  | some exponent => exponent.text

/-- The exponent that is meant, 0 if there is none. -/
def exponentValue : Option WrittenExponent → Int
  | none => 0
  | some exponent => exponent.value

namespace DecimalText

variable (decimal : DecimalText)

/-- The characters of a decimal. -/
def text : List Char :=
  decimal.sign.text ++
    (decimal.whole ++ (fractionText decimal.fraction ++ exponentPart decimal.exponent))

/-- The numeral that reading makes of the decimal. -/
def numeral : Numeral where
  negative := decimal.sign.isMinus
  digits := spelled (decimal.whole ++ decimal.fraction.getD [])
  exponent := exponentValue decimal.exponent - (decimal.fraction.getD []).length

end DecimalText

namespace Numeral

/-! ## 2. Reading the parts -/

section

variable {cs rest : List Char}

/-- The text does not go on with a digit. -/
def EndsDigits (rest : List Char) : Prop :=
  ∀ c ∈ rest.head?, c.isDigit = false

/-- Digits are taken off up to where they end. -/
theorem takeDigits_eq {digits rest : List Char} (hdigits : ∀ d ∈ digits, d.isDigit = true)
    (hrest : EndsDigits rest) : takeDigits (digits ++ rest) = (digits, rest) := by
  have htake : rest.takeWhile Char.isDigit = [] := by
    cases rest with
    | nil => rfl
    | cons c rest => simp [hrest c rfl]
  have hdrop : rest.dropWhile Char.isDigit = rest := by
    cases rest with
    | nil => rfl
    | cons c rest => simp [hrest c rfl]
  rw [takeDigits, List.takeWhile_append_of_pos hdigits, List.dropWhile_append_of_pos hdigits,
    htake, hdrop, List.append_nil]

/-- A sign is taken off in front of what does not begin with one. -/
theorem takeSign_append (sign : WrittenSign) (h : ∀ c ∈ rest.head?, c ≠ '+' ∧ c ≠ '-') :
    takeSign (sign.text ++ rest) = (sign.isMinus, rest) := by
  cases sign with
  | plus => rfl
  | minus => rfl
  | none =>
    cases rest with
    | nil => rfl
    | cons c rest =>
      obtain ⟨hplus, hminus⟩ := h c rfl
      unfold takeSign
      split
      · simp_all [WrittenSign.text]
      · simp_all [WrittenSign.text]
      · rfl

theorem exists_sign (cs : List Char) :
    ∃ sign : WrittenSign, sign.text ++ (takeSign cs).2 = cs := by
  unfold takeSign
  split
  · exact ⟨.plus, rfl⟩
  · exact ⟨.minus, rfl⟩
  · exact ⟨.none, rfl⟩

theorem ne_sign_of_isDigit {c : Char} (h : c.isDigit = true) : c ≠ '+' ∧ c ≠ '-' := by
  constructor
  · rintro rfl
    contradiction
  · rintro rfl
    contradiction

/-- An exponent is read as what it is. -/
theorem readExponent_exponentPart (exponent : Option WrittenExponent) :
    readExponent (exponentPart exponent) = some (exponentValue exponent) := by
  cases exponent with
  | none => rfl
  | some exponent =>
    have hhead : ∀ c ∈ exponent.digits.head?, c ≠ '+' ∧ c ≠ '-' := fun c hc =>
      ne_sign_of_isDigit (exponent.isDigit c (List.mem_of_mem_head? hc))
    have hsign := takeSign_append exponent.sign hhead
    have hdigits : takeDigits exponent.digits = (exponent.digits, []) := by
      have hends : EndsDigits [] := by simp [EndsDigits]
      simpa using takeDigits_eq exponent.isDigit hends
    have hne : exponent.digits.isEmpty = false := by simpa using exponent.ne_nil
    simp only [exponentPart, WrittenExponent.text, readExponent, if_pos exponent.isLetter, hsign,
      hdigits, hne]
    rfl

/-- An exponent begins with its letter. -/
theorem endsDigits_exponentPart (exponent : Option WrittenExponent) :
    EndsDigits (exponentPart exponent) := by
  cases exponent with
  | none => simp [EndsDigits, exponentPart]
  | some exponent =>
    intro c hc
    obtain rfl : exponent.letter = c := Option.some.inj hc
    rcases exponent.isLetter with h | h <;> rw [h] <;> rfl

/-- What is read as an exponent is one. -/
theorem exists_exponent {value : Int} (h : readExponent cs = some value) :
    ∃ exponent, exponentPart exponent = cs := by
  cases cs with
  | nil => exact ⟨none, rfl⟩
  | cons letter rest =>
    simp only [readExponent, Option.ite_none_right_eq_some, Option.ite_none_left_eq_some] at h
    obtain ⟨hletter, hdigits, -⟩ := h
    simp only [Bool.or_eq_true, not_or, Bool.not_eq_true', Bool.not_eq_false,
      List.isEmpty_iff] at hdigits
    obtain ⟨hne, hend⟩ := hdigits
    obtain ⟨sign, hsign⟩ := exists_sign rest
    let exponent : WrittenExponent :=
      { letter, sign, digits := (takeDigits (takeSign rest).2).1, isLetter := hletter
        isDigit := fun d hd => List.mem_takeWhile_imp hd
        ne_nil := hne }
    refine ⟨some exponent, ?_⟩
    have hall := takeDigits_append (takeSign rest).2
    rw [hend, List.append_nil] at hall
    simp only [exponentPart, WrittenExponent.text, exponent]
    rw [hall, hsign]

/-- The point and the digits behind it are taken off in front of an exponent. -/
theorem takeFraction_append {fraction : Option (List Char)}
    (hdigits : ∀ d ∈ fraction.getD [], d.isDigit = true) (exponent : Option WrittenExponent) :
    takeFraction (fractionText fraction ++ exponentPart exponent) =
      (fraction.getD [], exponentPart exponent) := by
  cases fraction with
  | none =>
    cases exponent with
    | none => rfl
    | some exponent =>
      have hletter : exponent.letter ≠ '.' := by
        rcases exponent.isLetter with h | h <;> simp [h]
      simp only [fractionText, exponentPart, WrittenExponent.text, List.nil_append]
      unfold takeFraction
      split
      · simp_all
      · rfl
  | some fraction =>
    exact takeDigits_eq hdigits (endsDigits_exponentPart exponent)

theorem exists_fraction (cs : List Char) :
    ∃ fraction, fractionText fraction ++ (takeFraction cs).2 = cs ∧
      fraction.getD [] = (takeFraction cs).1 := by
  unfold takeFraction
  split
  · next rest =>
    refine ⟨some (takeDigits rest).1, ?_, rfl⟩
    rw [fractionText, List.cons_append, takeDigits_append]
  · exact ⟨none, rfl, rfl⟩

theorem isDigit_of_mem_takeFraction {d : Char} (h : d ∈ (takeFraction cs).1) :
    d.isDigit = true := by
  unfold takeFraction at h
  split at h
  · exact List.mem_takeWhile_imp h
  · simp at h

end

end Numeral

/-! ## 3. Reading the whole -/

/-- A decimal does not go on with a digit after those before the point. -/
theorem endsDigits_fractionText (fraction : Option (List Char)) (exponent : Option WrittenExponent) :
    EndsDigits (fractionText fraction ++ exponentPart exponent) := by
  cases fraction with
  | none => exact endsDigits_exponentPart exponent
  | some fraction => simp [EndsDigits, fractionText]

namespace DecimalText

variable (decimal : DecimalText)

/-- What stands behind the sign does not begin with another one. -/
theorem ne_sign_of_mem_head? :
    ∀ c ∈ (decimal.whole ++
      (fractionText decimal.fraction ++ exponentPart decimal.exponent)).head?, c ≠ '+' ∧ c ≠ '-' := by
  intro c hc
  cases hwhole : decimal.whole with
  | cons first whole =>
    obtain rfl : first = c := by simpa [hwhole] using hc
    exact ne_sign_of_isDigit (decimal.isDigit first (by simp [hwhole]))
  | nil =>
    have hfraction := decimal.ne_nil.resolve_left (not_not_intro hwhole)
    cases hpoint : decimal.fraction with
    | none => exact absurd (by simp [hpoint]) hfraction
    | some fraction =>
      obtain rfl : '.' = c := by simpa [hwhole, hpoint, fractionText] using hc
      decide

/-- A decimal is read as its numeral. -/
theorem read?_eq : read? decimal.text = some decimal.numeral := by
  have hsign := takeSign_append decimal.sign decimal.ne_sign_of_mem_head?
  have hwhole := takeDigits_eq (fun d hd => decimal.isDigit d (List.mem_append_left _ hd))
    (endsDigits_fractionText decimal.fraction decimal.exponent)
  have hfraction := takeFraction_append
    (fun d hd => decimal.isDigit d (List.mem_append_right _ hd)) decimal.exponent
  have hne : (decimal.whole.isEmpty && (decimal.fraction.getD []).isEmpty) = false := by
    rw [Bool.and_eq_false_iff]
    exact decimal.ne_nil.imp List.isEmpty_eq_false_iff.mpr List.isEmpty_eq_false_iff.mpr
  simp only [read?, text, hsign, hwhole, hfraction, hne, readExponent_exponentPart]
  rfl

end DecimalText

/-- What is read as a numeral is a decimal. -/
theorem exists_decimalText {cs : List Char} {numeral : Numeral} (h : read? cs = some numeral) :
    ∃ decimal : DecimalText, decimal.text = cs := by
  simp only [read?, Option.ite_none_left_eq_some, Option.map_eq_some_iff] at h
  obtain ⟨hne, value, hexponent, -⟩ := h
  obtain ⟨sign, hsign⟩ := exists_sign cs
  obtain ⟨fraction, hpoint, hfraction⟩ := exists_fraction (takeDigits (takeSign cs).2).2
  obtain ⟨exponent, hletter⟩ := exists_exponent hexponent
  rw [Bool.and_eq_true, not_and_or, List.isEmpty_iff, List.isEmpty_iff, ← hfraction] at hne
  refine ⟨{ sign, whole := (takeDigits (takeSign cs).2).1, fraction, exponent
            isDigit := ?_, ne_nil := hne }, ?_⟩
  · intro d hd
    rcases List.mem_append.mp hd with hd | hd
    · exact List.mem_takeWhile_imp hd
    · rw [hfraction] at hd
      exact isDigit_of_mem_takeFraction hd
  · simp only [DecimalText.text]
    rw [hletter, hpoint, takeDigits_append, hsign]

/-- **Reading accepts the grammar and nothing else**, and makes the numeral of the decimal of it. -/
theorem read?_eq_some_iff {cs : List Char} {numeral : Numeral} :
    read? cs = some numeral ↔ ∃ decimal : DecimalText, decimal.text = cs ∧ decimal.numeral = numeral := by
  constructor
  · intro h
    obtain ⟨decimal, rfl⟩ := exists_decimalText h
    exact ⟨decimal, rfl, Option.some.inj (decimal.read?_eq.symm.trans h)⟩
  · rintro ⟨decimal, rfl, rfl⟩
    exact decimal.read?_eq

namespace Numeral

/-! ## 4. Digits with a minus, a point and an exponent -/

/-- A fraction with the point before it; there is no point without digits after it. -/
def pointed (fraction : List Char) : List Char :=
  if fraction = [] then [] else '.' :: fraction

/-- **Digits, with a point among them or not, an exponent or none, and a minus before them or not are
read as what they spell.** -/
theorem read?_written (negative : Bool) {whole fraction rest : List Char} {exponent : Int}
    (hne : whole ≠ []) (hdigits : ∀ d ∈ whole ++ fraction, d.isDigit = true)
    (hexponent : readExponent rest = some exponent) :
    read? ((if negative then ['-'] else []) ++ (whole ++ (pointed fraction ++ rest))) =
      some { negative, digits := spelled (whole ++ fraction),
             exponent := exponent - fraction.length } := by
  obtain ⟨written, rfl⟩ := exists_exponent hexponent
  obtain rfl : exponentValue written = exponent :=
    Option.some.inj ((readExponent_exponentPart written).symm.trans hexponent)
  obtain ⟨sign, hsign, rfl⟩ : ∃ sign : WrittenSign,
      sign.text = (if negative then ['-'] else []) ∧ sign.isMinus = negative := by
    cases negative
    · exact ⟨.none, rfl, rfl⟩
    · exact ⟨.minus, rfl, rfl⟩
  obtain ⟨point, hpoint, rfl⟩ : ∃ point, fractionText point = pointed fraction ∧
      point.getD [] = fraction := by
    unfold pointed
    split
    · next hnone => exact ⟨none, rfl, hnone.symm⟩
    · exact ⟨some fraction, rfl, rfl⟩
  let decimal : DecimalText :=
    { sign, whole, fraction := point, exponent := written, isDigit := hdigits, ne_nil := .inl hne }
  rw [← hsign, ← hpoint]
  exact decimal.read?_eq

/-- A text of digits is a numeral. -/
theorem read?_of_isDigit {c : Char} {rest : List Char} (h : ∀ d ∈ c :: rest, d.isDigit = true) :
    read? (c :: rest) =
      some { negative := false, digits := spelled (c :: rest), exponent := 0 } := by
  have hdigits : ∀ d ∈ (c :: rest) ++ [], d.isDigit = true := by simpa using h
  have hread := read?_written false (List.cons_ne_nil c rest) hdigits (rfl : readExponent [] = some 0)
  simpa [pointed] using hread

/-! ## 5. What a numeral is made of -/

/-- The characters of numerals. -/
def isDecimal (c : Char) : Bool :=
  c.isDigit || c == '.' || c == '+' || c == '-' || c == 'e' || c == 'E'

theorem isDecimal_of_isDigit {c : Char} (h : c.isDigit = true) : isDecimal c = true := by
  simp [isDecimal, h]

/-- In lower case, a character of a numeral is still one. -/
theorem isDecimal_toLower {c : Char} (h : isDecimal c = true) : isDecimal c.toLower = true := by
  have hcases := h
  simp only [isDecimal, Bool.or_eq_true, beq_iff_eq] at hcases
  rcases hcases with ((((hdigit | rfl) | rfl) | rfl) | rfl) | rfl
  · have hsame : c.toLower = c := by
      unfold Char.toLower
      split
      · next hupper =>
        simp only [Char.isDigit, Bool.and_eq_true, decide_eq_true_eq] at hdigit
        exact absurd (UInt32.le_trans hupper.1 hdigit.2) (by decide)
      · rfl
    rw [hsame, h]
  all_goals rfl

/-- What is left behind a sign stood in the text. -/
theorem mem_of_mem_takeSign {c : Char} {cs : List Char} (h : c ∈ (takeSign cs).2) : c ∈ cs := by
  unfold takeSign at h
  split at h
  · exact List.mem_cons_of_mem _ h
  · exact List.mem_cons_of_mem _ h
  · exact h

section

variable {c : Char}

theorem isDecimal_of_mem_sign {sign : WrittenSign} (h : c ∈ sign.text) : isDecimal c = true := by
  cases sign with
  | none => simp [WrittenSign.text] at h
  | plus =>
    obtain rfl := List.mem_singleton.mp h
    rfl
  | minus =>
    obtain rfl := List.mem_singleton.mp h
    rfl

theorem isDecimal_of_mem_exponent {exponent : Option WrittenExponent}
    (h : c ∈ exponentPart exponent) : isDecimal c = true := by
  cases exponent with
  | none => simp [exponentPart] at h
  | some exponent =>
    rcases List.mem_cons.mp h with rfl | h
    · rcases exponent.isLetter with hletter | hletter <;> rw [hletter] <;> rfl
    · rcases List.mem_append.mp h with h | h
      · exact isDecimal_of_mem_sign h
      · exact isDecimal_of_isDigit (exponent.isDigit c h)

theorem isDecimal_of_mem_fraction {fraction : Option (List Char)}
    (hdigits : ∀ d ∈ fraction.getD [], d.isDigit = true) (h : c ∈ fractionText fraction) :
    isDecimal c = true := by
  cases fraction with
  | none => simp [fractionText] at h
  | some fraction =>
    rcases List.mem_cons.mp h with rfl | h
    · rfl
    · exact isDecimal_of_isDigit (hdigits c h)

/-- Only characters of numerals stand in a text that is read as one. -/
theorem isDecimal_of_read? {cs : List Char} {numeral : Numeral}
    (hread : read? cs = some numeral) (h : c ∈ cs) : isDecimal c = true := by
  obtain ⟨decimal, rfl, -⟩ := read?_eq_some_iff.mp hread
  simp only [DecimalText.text, List.mem_append] at h
  rcases h with h | h | h | h
  · exact isDecimal_of_mem_sign h
  · exact isDecimal_of_isDigit (decimal.isDigit c (List.mem_append_left _ h))
  · exact isDecimal_of_mem_fraction
      (fun d hd => decimal.isDigit d (List.mem_append_right _ hd)) h
  · exact isDecimal_of_mem_exponent h

end

/-! ## 6. Texts that are numerals -/

theorem isBlank_of_isDecimal {c : Char} (h : isDecimal c = true) : Text.isBlank c = false := by
  have hrange : 0x21 ≤ c.toNat ∧ c.toNat ≤ 0x7E := by
    simp only [isDecimal, Char.isDigit, Bool.or_eq_true, Bool.and_eq_true, decide_eq_true_eq,
      beq_iff_eq] at h
    rcases h with ((((⟨hlow, hhigh⟩ | rfl) | rfl) | rfl) | rfl) | rfl
    · have hlow' : '0'.toNat ≤ c.toNat := hlow
      have hhigh' : c.toNat ≤ '9'.toNat := hhigh
      exact ⟨Nat.le_trans (by decide) hlow', Nat.le_trans hhigh' (by decide)⟩
    all_goals decide
  simp only [Text.isBlank, Text.CodeRanges.contains, Text.blankRanges, Text.findRange,
    Bool.and_eq_false_imp, decide_eq_true_eq, Bool.or_eq_false_iff, decide_eq_false_iff_not]
  omega

end Number.Numeral

open Number

/-- A text without blanks has none to trim. -/
theorem Text.trim_eq_self {cs : List Char} (h : ∀ c ∈ cs, isBlank c = false) : trim cs = cs := by
  have hdrop {cs : List Char} (h : ∀ c ∈ cs, isBlank c = false) : cs.dropWhile isBlank = cs := by
    cases cs with
    | nil => rfl
    | cons c cs => simp [h c List.mem_cons_self]
  rw [trim, hdrop h, hdrop fun c hc => h c (List.mem_reverse.mp hc), List.reverse_reverse]

/-- A text that is a numeral but for blanks at its ends stands for the double nearest to it. -/
theorem readNumber_of_read?_trim {text : String} {numeral : Numeral}
    (h : Numeral.read? (Text.trim text.toList) = some numeral) :
    readNumber text = numeral.toFloat := by
  -- no name of infinity is read as a numeral
  have hname {name : String} (hnone : Numeral.read? name.toList = none) :
      String.ofList (Text.trim text.toList) ≠ name := by
    rintro rfl
    rw [String.toList_ofList, h] at hnone
    contradiction
  have hne : Text.trim text.toList ≠ [] := by
    intro hempty
    rw [hempty] at h
    contradiction
  simp only [readNumber]
  rw [if_neg hne, if_neg, if_neg, h]
  · exact not_or.mpr ⟨hname (by decide), hname (by decide)⟩
  · exact not_or.mpr ⟨hname (by decide), not_or.mpr ⟨hname (by decide),
      not_or.mpr ⟨hname (by decide), hname (by decide)⟩⟩⟩

/-- A text that is a numeral stands for the double nearest to it. -/
theorem readNumber_of_read? {cs : List Char} {numeral : Numeral}
    (h : Numeral.read? cs = some numeral) : readNumber (String.ofList cs) = numeral.toFloat := by
  have htrim : Text.trim cs = cs :=
    Text.trim_eq_self fun c hc => Numeral.isBlank_of_isDecimal (Numeral.isDecimal_of_read? h hc)
  apply readNumber_of_read?_trim
  rw [String.toList_ofList, htrim, h]

end GlyphStack
