import Mathlib
import GlyphStack.Number.Layout
import GlyphStack.Proofs.Number.Numeral
import GlyphStack.Proofs.Number.Shortest

/-!
The text of a number and back. However the digits of a number are laid out, with zeros behind them, a
point among them, zeros before them or an exponent, the text is a numeral, and its value is that of
the digits in their places (`read?_layout`). The digits are the shortest ones that round to the
number, so reading the text gives the number again (`readNumber_text`).

Every double comes back as itself but for two: the zero with a sign comes back as the one without,
and all that are not a number as one of them. So two doubles have one text exactly if they come back
as the same one (`text_eq_iff`).
-/

namespace GlyphStack.Number

namespace Numeral

/-! ## 1. Values -/

/-- The value of a numeral without its sign. -/
def magnitude (numeral : Numeral) : ℚ :=
  numeral.digits * 10 ^ numeral.exponent

/-- The value of a numeral. -/
def value (numeral : Numeral) : ℚ :=
  (if numeral.negative then -1 else 1) * numeral.magnitude

/-- The value without its sign as the ratio that is rounded. -/
theorem magnitude_eq_div (numeral : Numeral) :
    numeral.magnitude = ((numeral.digits * tenTo numeral.exponent.toNat : Nat) : ℚ) /
      (tenTo (-numeral.exponent).toNat : Nat) := by
  rw [Nat.cast_mul, natCast_tenTo, natCast_tenTo, mul_div_assoc, pow_toNat_div, magnitude]

theorem spelled_append (digits digits' : List Char) :
    spelled (digits ++ digits') = spelled digits * 10 ^ digits'.length + spelled digits' := by
  rw [spelled, Nat.ofDigitChars_append, Nat.ofDigitChars_eq_ofDigitChars_zero, Nat.mul_comm]
  rfl

theorem spelled_zeros (count : Nat) : spelled (List.replicate count '0') = 0 := by
  rw [spelled, Nat.ofDigitChars_replicate_zero, Nat.mul_zero]

theorem spelled_toDigits (n : Nat) : spelled (Nat.toDigits 10 n) = n :=
  Nat.ofDigitChars_ten_toDigits

/-- The value of digits in their places, the first of which is `10^exponent`. -/
def placed : List Char → Int → ℚ
  | [], _ => 0
  | digit :: rest, exponent =>
      spelled [digit] * 10 ^ exponent + placed rest (exponent - 1)

theorem placed_eq (digits : List Char) (exponent : Int) :
    placed digits exponent = spelled digits * 10 ^ (exponent + 1 - digits.length) := by
  induction digits generalizing exponent with
  | nil => simp [placed, spelled, Nat.ofDigitChars_nil]
  | cons digit rest ih =>
    have hplace : (10 : ℚ) ^ exponent = 10 ^ rest.length * 10 ^ (exponent - rest.length) := by
      rw [← zpow_natCast, ← zpow_add₀ (by norm_num)]
      congr 1
      ring
    have hrest : exponent - 1 + 1 - (rest.length : Int) = exponent - rest.length := by ring
    have hall : exponent + 1 - ((digit :: rest).length : Int) = exponent - rest.length := by
      rw [List.length_cons]
      push_cast
      ring
    have hspelled : (spelled (digit :: rest) : ℚ) =
        spelled [digit] * 10 ^ rest.length + spelled rest := by
      rw [← List.singleton_append, spelled_append]
      push_cast
      rfl
    rw [placed, ih, hrest, hall, hplace, hspelled]
    ring

/-- The digits of a number say how large it is. -/
theorem digits_bounds {n : Nat} (hn : n ≠ 0) :
    10 ^ ((Nat.toDigits 10 n).length - 1) ≤ n ∧ n < 10 ^ (Nat.toDigits 10 n).length := by
  constructor
  · rcases Nat.eq_zero_or_pos ((Nat.toDigits 10 n).length - 1) with hzero | hpos
    · rw [hzero]
      exact Nat.pos_of_ne_zero hn
    · by_contra hlt
      have hlength := (Nat.length_toDigits_le_iff (by norm_num) hpos).mpr (Nat.lt_of_not_ge hlt)
      omega
  · exact (Nat.length_toDigits_le_iff (by norm_num) Nat.length_toDigits_pos).mp (Nat.le_refl _)

/-- The value of a numeral lies between the powers of ten at its first digit and before it. -/
theorem magnitude_bounds {numeral : Numeral} (hdigits : numeral.digits ≠ 0) :
    let reach : Int := (Nat.toDigits 10 numeral.digits).length + numeral.exponent
    (10 : ℚ) ^ (reach - 1) ≤ numeral.magnitude ∧ numeral.magnitude < 10 ^ reach := by
  intro reach
  have hpower : (0 : ℚ) < 10 ^ numeral.exponent := by positivity
  have hlength := Nat.length_toDigits_pos (b := 10) (n := numeral.digits)
  obtain ⟨hlow, hhigh⟩ := digits_bounds hdigits
  constructor
  · have hplaces : reach - 1 =
        (((Nat.toDigits 10 numeral.digits).length - 1 : Nat) : Int) + numeral.exponent := by
      omega
    rw [hplaces, zpow_add₀ (by norm_num), magnitude]
    gcongr
    exact_mod_cast hlow
  · rw [zpow_add₀ (by norm_num), magnitude]
    gcongr
    exact_mod_cast hhigh

/-- A ratio in the span of a double, with its sign, gives the double. -/
theorem ofRatio_of_roundsTo {x : Float} {negative : Bool} {mantissa num den : Nat} {exponent : Int}
    (hparts : parts x = .finite negative mantissa exponent) (hcanonical : Canonical mantissa exponent)
    (hden : 0 < den) (h : RoundsTo mantissa exponent (num / den)) :
    ofRatio negative num den = x := by
  obtain ⟨rfl, hbits, -⟩ := canonical_of_parts hparts
  rw [ofRatio, nearestBits_of_roundsTo hcanonical hden h, ← hbits, sign_add_magnitudeBits,
    UInt64.ofNat_toNat, Float.ofBits_toBits]

/-- **A numeral that rounds to a double is read as it.** -/
theorem toFloat_of_roundsTo {x : Float} {mantissa : Nat} {exponent : Int} {numeral : Numeral}
    (hparts : parts x = .finite numeral.negative mantissa exponent)
    (hcanonical : Canonical mantissa exponent) (h : RoundsTo mantissa exponent numeral.magnitude) :
    numeral.toFloat = x := by
  have hdigits : numeral.digits ≠ 0 := by
    intro hzero
    have hmagnitude := h.pos hcanonical
    simp [magnitude, hzero] at hmagnitude
  obtain ⟨hlow, hhigh⟩ := magnitude_bounds hdigits
  obtain ⟨reach, hreach⟩ : ∃ reach : Int,
      reach = (Nat.toDigits 10 numeral.digits).length + numeral.exponent := ⟨_, rfl⟩
  rw [← hreach] at hlow hhigh
  -- where the doubles end on either side, reading does not look at the digits
  have hnotSmall : ¬ reach ≤ -324 := by
    intro hsmall
    have hpowers : (10 : ℚ) ^ reach ≤ 10 ^ (-324 : Int) := by
      gcongr
      norm_num
    exact lt_irrefl _ ((hhigh.trans_le hpowers).trans (h.gt_of_canonical hcanonical))
  have hnotLarge : ¬ 310 ≤ reach := by
    intro hlarge
    have hpowers : (10 : ℚ) ^ (309 : Int) ≤ 10 ^ (reach - 1) := by
      gcongr
      · norm_num
      · omega
    exact lt_irrefl _ ((hpowers.trans hlow).trans_lt (h.lt_of_canonical hcanonical))
  unfold toFloat
  simp only [← hreach, hdigits, hnotSmall, hnotLarge, or_self, if_false]
  exact ofRatio_of_roundsTo hparts hcanonical (tenTo_pos _) (numeral.magnitude_eq_div ▸ h)

end Numeral

/-! ## 2. Layouts -/

open Numeral

/-- The text of an exponent is read as that exponent. -/
theorem readExponent_exponentText (e : Int) : readExponent (exponentText e) = some e := by
  obtain ⟨sign, hsign, hvalue⟩ : ∃ sign : WrittenSign,
      sign.text = [if e < 0 then '-' else '+'] ∧
        (if sign.isMinus then -(e.natAbs : Int) else e.natAbs) = e := by
    rcases lt_or_ge e 0 with he | he
    · have habs : -(e.natAbs : Int) = e := by omega
      exact ⟨.minus, by rw [if_pos he]; rfl, habs⟩
    · have habs : (e.natAbs : Int) = e := by omega
      exact ⟨.plus, by rw [if_neg (not_lt.mpr he)]; rfl, habs⟩
  let exponent : WrittenExponent :=
    { letter := 'e', sign, digits := Nat.toDigits 10 e.natAbs, isLetter := .inl rfl
      isDigit := fun d hd => Nat.isDigit_of_mem_toDigits (by decide) (by decide) hd
      ne_nil := Nat.toDigits_ne_nil }
  have hread := readExponent_exponentPart (some exponent)
  simp only [exponentPart, WrittenExponent.text, exponentValue, WrittenExponent.value, exponent, hsign,
    spelled_toDigits, hvalue] at hread
  exact hread

section

variable {digits : List Char} {point : Int}

/-- What a layout is put together from: digits before the point, digits after it and an exponent,
which spell the digits with zeros on either side. -/
structure LaidOut (digits : List Char) (point : Int) (whole fraction rest : List Char)
    (exponent : Int) : Prop where
  text : layout digits point = whole ++ (pointed fraction ++ rest)
  whole_ne : whole ≠ []
  isDigit : ∀ d ∈ whole ++ fraction, d = '0' ∨ d ∈ digits
  readExponent : readExponent rest = some exponent
  letter : 'e' ∈ rest ↔ point ≤ -maxLeadingPlaces ∨ maxWholeDigits < point
  value : (spelled (whole ++ fraction) : ℚ) * 10 ^ (exponent - fraction.length) =
    spelled digits * 10 ^ (point - digits.length)

/-- Digits that end before the point are written with zeros behind them. -/
theorem laidOut_behind (hne : digits ≠ []) (hwhole : digits.length ≤ point ∧ point ≤ maxWholeDigits) :
    LaidOut digits point (digits ++ List.replicate (point - digits.length).toNat '0') [] [] 0 where
  text := by simp only [layout, if_pos hwhole, pointed, if_true, List.append_nil]
  whole_ne := by simp [hne]
  isDigit := by
    intro d hd
    rw [List.append_nil, List.mem_append, List.mem_replicate] at hd
    exact hd.symm.imp_left And.right
  readExponent := rfl
  letter := by
    have hlimits : 0 < maxLeadingPlaces := by decide
    simp only [List.not_mem_nil, false_iff]
    omega
  value := by
    have hcount : point - digits.length = ((point - digits.length).toNat : Nat) := by omega
    rw [List.append_nil, spelled_append, spelled_zeros, List.length_replicate, hcount]
    simp

/-- Where the point falls among the digits, it is written there. -/
theorem laidOut_among (hne : digits ≠ []) (hwhole : ¬ (digits.length ≤ point ∧ point ≤ maxWholeDigits))
    (hamong : 0 < point ∧ point ≤ maxWholeDigits) :
    LaidOut digits point (digits.take point.toNat) (digits.drop point.toNat) [] 0 where
  text := by
    have hdrop : digits.drop point.toNat ≠ [] := by
      rw [Ne, List.drop_eq_nil_iff]
      omega
    simp only [layout, if_neg hwhole, if_pos hamong, pointed, if_neg hdrop, List.append_nil]
  whole_ne := by
    rw [Ne, List.take_eq_nil_iff, not_or]
    exact ⟨by omega, hne⟩
  isDigit := by
    intro d hd
    rw [List.take_append_drop] at hd
    exact .inr hd
  readExponent := rfl
  letter := by
    have hlimits : 0 < maxLeadingPlaces := by decide
    simp only [List.not_mem_nil, false_iff]
    omega
  value := by
    have hcount : (0 : Int) - ((digits.drop point.toNat).length : Nat) = point - digits.length := by
      rw [List.length_drop]
      omega
    rw [List.take_append_drop, hcount]

/-- Digits that begin at the point or soon after it are written with zeros before them. -/
theorem laidOut_before (hne : digits ≠ []) (hbefore : -maxLeadingPlaces < point ∧ point ≤ 0) :
    LaidOut digits point ['0'] (List.replicate (-point).toNat '0' ++ digits) [] 0 where
  text := by
    have hlength : 0 < digits.length := List.length_pos_iff.mpr hne
    have hwhole : ¬ (digits.length ≤ point ∧ point ≤ maxWholeDigits) := by omega
    have hamong : ¬ (0 < point ∧ point ≤ maxWholeDigits) := by omega
    have hfraction : List.replicate (-point).toNat '0' ++ digits ≠ [] := by simp [hne]
    simp only [layout, if_neg hwhole, if_neg hamong, if_pos hbefore, pointed, if_neg hfraction,
      List.append_nil, List.cons_append, List.nil_append]
  whole_ne := by simp
  isDigit := by
    intro d hd
    simp only [List.mem_append, List.mem_singleton, List.mem_replicate] at hd
    rcases hd with hd | ⟨-, hd⟩ | hd
    · exact .inl hd
    · exact .inl hd
    · exact .inr hd
  readExponent := rfl
  letter := by
    have hlimits : 0 < maxWholeDigits := by decide
    simp only [List.not_mem_nil, false_iff]
    omega
  value := by
    have hcount : (0 : Int) - ((List.replicate (-point).toNat '0' ++ digits).length : Nat) =
        point - digits.length := by
      rw [List.length_append, List.length_replicate]
      omega
    have hzero : spelled ['0'] = 0 := spelled_zeros 1
    rw [hcount, spelled_append, spelled_append, spelled_zeros, hzero]
    simp

/-- Anything else is written with an exponent. -/
theorem laidOut_exponent (hne : digits ≠ [])
    (hwhole : ¬ (digits.length ≤ point ∧ point ≤ maxWholeDigits))
    (hamong : ¬ (0 < point ∧ point ≤ maxWholeDigits))
    (hbefore : ¬ (-maxLeadingPlaces < point ∧ point ≤ 0)) :
    LaidOut digits point (digits.take 1) (digits.drop 1) (exponentText (point - 1)) (point - 1) where
  text := by
    have hone : digits.length ≤ 1 ↔ digits.drop 1 = [] := List.drop_eq_nil_iff.symm
    simp only [layout, if_neg hwhole, if_neg hamong, if_neg hbefore, pointed, hone,
      List.append_assoc]
  whole_ne := by
    rw [Ne, List.take_eq_nil_iff]
    simp [hne]
  isDigit := by
    intro d hd
    rw [List.take_append_drop] at hd
    exact .inr hd
  readExponent := readExponent_exponentText _
  letter := by
    simp only [exponentText, List.mem_cons_self, true_iff]
    omega
  value := by
    have hlength : 0 < digits.length := List.length_pos_iff.mpr hne
    have hcount : point - 1 - ((digits.drop 1).length : Nat) = point - digits.length := by
      rw [List.length_drop]
      omega
    rw [List.take_append_drop, hcount]

/-- Every layout is put together so, whichever of the four it is. -/
theorem exists_laidOut (hne : digits ≠ []) (point : Int) :
    ∃ whole fraction rest exponent, LaidOut digits point whole fraction rest exponent := by
  by_cases hwhole : digits.length ≤ point ∧ point ≤ maxWholeDigits
  · exact ⟨_, _, _, _, laidOut_behind hne hwhole⟩
  by_cases hamong : 0 < point ∧ point ≤ maxWholeDigits
  · exact ⟨_, _, _, _, laidOut_among hne hwhole hamong⟩
  by_cases hbefore : -maxLeadingPlaces < point ∧ point ≤ 0
  · exact ⟨_, _, _, _, laidOut_before hne hbefore⟩
  · exact ⟨_, _, _, _, laidOut_exponent hne hwhole hamong hbefore⟩

/-- **Every layout of digits is a numeral with the value of the digits in their places.** -/
theorem read?_layout (hdigits : ∀ d ∈ digits, d.isDigit = true) (hne : digits ≠ []) (point : Int)
    (negative : Bool) :
    ∃ numeral, read? ((if negative then ['-'] else []) ++ layout digits point) = some numeral ∧
      numeral.negative = negative ∧ numeral.magnitude = placed digits (point - 1) ∧
      ('e' ∈ layout digits point ↔ point ≤ -maxLeadingPlaces ∨ maxWholeDigits < point) := by
  obtain ⟨whole, fraction, rest, exponent, h⟩ := exists_laidOut hne point
  have hisDigit : ∀ d ∈ whole ++ fraction, d.isDigit = true := by
    intro d hd
    rcases h.isDigit d hd with rfl | hd
    · rfl
    · exact hdigits d hd
  refine ⟨_, h.text ▸ read?_written negative h.whole_ne hisDigit h.readExponent, rfl, ?_, ?_⟩
  · rw [magnitude, placed_eq, sub_add_cancel]
    exact h.value
  · have hletter (part : List Char) (hpart : ∀ d ∈ part, d ∈ whole ++ fraction) : 'e' ∉ part := by
      intro hmem
      have := hisDigit 'e' (hpart 'e' hmem)
      contradiction
    have hpointed : 'e' ∉ pointed fraction := by
      unfold pointed
      split
      · simp
      · simp [hletter fraction fun d hd => List.mem_append_right _ hd]
    rw [h.text, List.mem_append, List.mem_append, ← h.letter]
    simp [hletter whole fun d hd => List.mem_append_left _ hd, hpointed]

end

/-! ## 3. Doubles -/

variable {x : Float} {negative : Bool} {mantissa : Nat} {exponent : Int}

/-- What a double comes back as: itself, but for a zero with a sign and for what is not a number. -/
def settled (x : Float) : Float :=
  if isNaN x then nan else if isZero x then zero else x

theorem isNaN_iff : isNaN x = true ↔ 2047 * 2 ^ 52 < magnitudeBits x := by
  simp [isNaN]

theorem isNaN_iff_parts : isNaN x = true ↔ parts x = .nan := by
  have hbits : magnitudeBits x < 2 ^ 63 := Nat.mod_lt _ (twoTo_pos 63)
  have hsplit := Nat.div_add_mod (magnitudeBits x) (twoTo 52)
  have hmod := Nat.mod_lt (magnitudeBits x) (twoTo_pos 52)
  rw [isNaN_iff]
  unfold parts
  simp only [show twoTo 52 = 2 ^ 52 from rfl] at hsplit hmod ⊢
  split_ifs with hspecial hinfinite hsubnormal <;> simp <;> omega

theorem isZero_iff : isZero x = true ↔ magnitudeBits x = 0 := by
  simp [isZero]

theorem settled_of_parts_nan (h : parts x = .nan) : settled x = nan :=
  if_pos (isNaN_iff_parts.mpr h)

theorem bits_of_parts_infinite (h : parts x = .infinite negative) :
    isNegative x = negative ∧ magnitudeBits x = 2047 * 2 ^ 52 := by
  have hsplit := Nat.div_add_mod (magnitudeBits x) (twoTo 52)
  unfold parts at h
  simp only [show twoTo 52 = 2 ^ 52 from rfl] at h hsplit
  split_ifs at h with hspecial hinfinite
  injection h with hnegative
  exact ⟨hnegative, by omega⟩

theorem settled_of_parts_infinite (h : parts x = .infinite negative) :
    settled x = infinity negative := by
  obtain ⟨hnegative, hmagnitude⟩ := bits_of_parts_infinite h
  have hbits := sign_add_magnitudeBits x
  rw [hmagnitude, hnegative] at hbits
  rw [settled, if_neg (mt isNaN_iff.mp (by omega)), if_neg (mt isZero_iff.mp (by omega)),
    ← Float.ofBits_toBits x, ← UInt64.ofNat_toNat (x := x.toBits), ← hbits, infinity]
  cases negative <;> rfl

theorem settled_of_parts_finite (h : parts x = .finite negative mantissa exponent) :
    settled x = if mantissa = 0 then zero else x := by
  obtain ⟨-, hbits, hzero | hcanonical⟩ := canonical_of_parts h
  · have hnone : magnitudeBits x = 0 := by simpa [hzero.1, hzero.2] using hbits
    rw [settled, if_neg (mt isNaN_iff.mp (by omega)), if_pos (isZero_iff.mpr hnone),
      if_pos hzero.1]
  · obtain ⟨hpos, hlt, hleast, hlargest, hfull⟩ := hcanonical
    rw [show twoTo 52 = 2 ^ 52 from rfl] at hbits
    rw [settled, if_neg (mt isNaN_iff.mp (by omega)), if_neg (mt isZero_iff.mp (by omega)),
      if_neg (by omega)]

theorem text_of_parts_nan (h : parts x = .nan) : text x = ['N', 'a', 'N'] := by
  simp only [text, h]

theorem text_of_parts_infinite (h : parts x = .infinite negative) :
    text x = (if negative then ['-'] else []) ++ ['I', 'n', 'f'] := by
  simp only [text, h]

theorem text_of_parts_zero (h : parts x = .finite negative 0 exponent) : text x = ['0'] := by
  simp only [text, h, if_true]

/-- The text of a double other than zero is a numeral: its shortest digits in their places, with its
sign. -/
theorem read?_text (hparts : parts x = .finite negative mantissa exponent) (hmantissa : mantissa ≠ 0) :
    let decimal := shortest mantissa exponent
    let digits := Nat.toDigits 10 decimal.digits
    let leading : Int := digits.length - 1 + decimal.exponent
    ∃ numeral, read? (text x) = some numeral ∧ numeral.negative = negative ∧
      numeral.magnitude = placed digits leading ∧
      ('e' ∈ text x ↔ leading < -maxLeadingPlaces ∨ maxWholeDigits ≤ leading) := by
  intro decimal digits leading
  have hdigits : ∀ d ∈ digits, d.isDigit = true :=
    fun d hd => Nat.isDigit_of_mem_toDigits (by decide) (by decide) hd
  obtain ⟨numeral, hread, hnegative, hmagnitude, hletter⟩ :=
    read?_layout hdigits Nat.toDigits_ne_nil (leading + 1) negative
  rw [add_sub_cancel_right] at hmagnitude
  have htext : text x = (if negative then ['-'] else []) ++ layout digits (leading + 1) := by
    have hpoint : leading + 1 = digits.length + decimal.exponent := by ring
    rw [hpoint]
    simp only [text, hparts, if_neg hmantissa]
    rfl
  refine ⟨numeral, by rw [htext]; exact hread, hnegative, hmagnitude, ?_⟩
  have hsign : 'e' ∉ (if negative then ['-'] else []) := by cases negative <;> simp
  rw [htext, List.mem_append, or_iff_right hsign, hletter]
  omega

/-- The text of a number reads back as the number, zeros without their sign. -/
theorem readNumber_text (x : Float) : readNumber (String.ofList (text x)) = settled x := by
  cases hparts : parts x with
  | nan =>
    rw [settled_of_parts_nan hparts, text_of_parts_nan hparts]
    decide +kernel
  | infinite negative =>
    rw [settled_of_parts_infinite hparts, text_of_parts_infinite hparts]
    cases negative <;> decide +kernel
  | finite negative mantissa exponent =>
    rw [settled_of_parts_finite hparts]
    split
    · next hzero =>
      subst hzero
      rw [text_of_parts_zero hparts]
      decide +kernel
    · next hmantissa =>
      obtain ⟨numeral, hread, hnegative, hmagnitude, -⟩ := read?_text hparts hmantissa
      obtain ⟨-, -, hzero | hcanonical⟩ := canonical_of_parts hparts
      · exact absurd hzero.1 hmantissa
      subst hnegative
      rw [readNumber_of_read? hread]
      refine toFloat_of_roundsTo hparts hcanonical ?_
      have hvalue : numeral.magnitude = (shortest mantissa exponent).value := by
        rw [hmagnitude, placed_eq, spelled_toDigits, Decimal.value]
        congr 2
        ring
      rw [hvalue]
      exact roundsTo_shortest hcanonical

/-- **Numbers come back from their texts.** The text of a finite double other than zero holds only
characters of numerals; it is a numeral, with the value of the shortest digits in their places and
the sign of the double; and it has an exponent exactly where the first digit stands more than six
places behind the point or has twenty-one or more digits after it before the point. Read as a value
of a program, the text of any double gives that double, except that a zero loses its sign and that
all that are not a number come back as the same one. -/
theorem text_round_trip (heap : Heap) (x : Float) :
    (∀ negative mantissa exponent, parts x = .finite negative mantissa exponent → mantissa ≠ 0 →
      let decimal := shortest mantissa exponent
      let digits := Nat.toDigits 10 decimal.digits
      let leading : Int := digits.length - 1 + decimal.exponent
      (∀ c ∈ text x, isDecimal c = true) ∧
        (∃ numeral, read? (text x) = some numeral ∧
          numeral.value = (if negative then -1 else 1) * placed digits leading) ∧
        ('e' ∈ text x ↔ leading < -6 ∨ 21 ≤ leading)) ∧
      heap.toNumber (.string (String.ofList (text x))) = settled x := by
  refine ⟨?_, readNumber_text x⟩
  intro negative mantissa exponent hparts hmantissa decimal digits leading
  obtain ⟨numeral, hread, hnegative, hmagnitude, hletter⟩ := read?_text hparts hmantissa
  refine ⟨fun c hc => isDecimal_of_read? hread hc, ⟨numeral, hread, ?_⟩, hletter⟩
  rw [value, hnegative, hmagnitude]

/-- `1.5e-10` has an exponent, and is the number that has it for a text. -/
theorem text_round_trip_of_small :
    let x := ofRatio false 3 20000000000
    String.ofList (text x) = "1.5e-10" ∧ parts x = .finite false 5802843934150220 (-85) ∧
      'e' ∈ text x ∧ readNumber "1.5e-10" = x := by
  intro x
  have htext : String.ofList (text x) = "1.5e-10" := by decide +kernel
  have hparts : parts x = .finite false 5802843934150220 (-85) := by decide +kernel
  have hsettled : settled x = x := by rw [settled_of_parts_finite hparts, if_neg (by decide)]
  obtain ⟨hlayout, hread⟩ := text_round_trip Heap.empty x
  obtain ⟨-, -, hletter⟩ := hlayout _ _ _ hparts (by decide)
  refine ⟨htext, hparts, hletter.mpr (by decide +kernel), ?_⟩
  rw [htext, hsettled] at hread
  exact hread

/-! ## 4. Doubles with one text -/

/-- The two doubles are the same but for the sign of a zero and the bits of what is not a number. -/
def Identified (x y : Float) : Prop :=
  settled x = settled y

theorem text_settled (x : Float) : text (settled x) = text x := by
  cases hparts : parts x with
  | nan =>
    rw [settled_of_parts_nan hparts, text_of_parts_nan hparts]
    decide +kernel
  | infinite negative =>
    rw [settled_of_parts_infinite hparts, text_of_parts_infinite hparts]
    cases negative <;> decide +kernel
  | finite negative mantissa exponent =>
    rw [settled_of_parts_finite hparts]
    split
    · next hzero =>
      subst hzero
      rw [text_of_parts_zero hparts]
      decide +kernel
    · rfl

/-- Doubles have one text exactly if they come back as the same double. -/
theorem text_eq_iff {x y : Float} : text x = text y ↔ Identified x y := by
  constructor
  · intro h
    rw [Identified, ← readNumber_text, h, readNumber_text]
  · intro h
    rw [← text_settled, h, text_settled]

end GlyphStack.Number
