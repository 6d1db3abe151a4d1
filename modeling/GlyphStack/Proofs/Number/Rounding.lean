import GlyphStack.Proofs.Number.Packed
import GlyphStack.Proofs.Number.Text

/-!
The nearest double. `NearestTo` says which double a number rounds to, by its distance from all doubles
and without a word on how it is found: no double is nearer, of two at the same distance the one
with the even mantissa is meant, and from half a unit beyond the largest double on it is the
infinity. There is one such double at most (`NearestTo.unique`). Choosing a double by its bits finds it
for every ratio (`nearestTo_ofRatio`), and so does reading a numeral (`Numeral.nearestTo_toFloat`).

Between a ratio and the double that is found for it stands `RoundsTo`: every positive ratio that is
neither too small nor too large lies in the span of a double (`nearestBits_cases`), and the doubles next
to that one lie so far off that none of them is nearer (`closest_of_roundsTo`).
-/

namespace GlyphStack.Number

/-! ## 1. Doubles by their bits -/

section Bits

open Float.Model Float.Model.UnpackedFloat

/-- Bits that are not those of a not-a-number are kept as they are. -/
theorem toBits_ofBits {bits : UInt64} (h : bits.toNat % 2 ^ 63 ≤ 2047 * 2 ^ 52) :
    (Float.ofBits bits).toBits = bits := by
  have hvalid : Format.binary64.Valid bits.toBitVec := by
    refine ⟨fun hexponent hmantissa => absurd ?_ hmantissa⟩
    have hfield : bits.toNat / 2 ^ 52 % 2 ^ 11 = 2047 := by
      have := congrArg BitVec.toNat hexponent
      simpa [unpackExponent, BitVec.extractLsb, Nat.shiftRight_eq_div_pow] using this
    have hfraction : (@unpackMantissa Format.binary64 bits.toBitVec).toNat = bits.toNat % 2 ^ 52 := by
      simp [unpackMantissa, BitVec.extractLsb]
    refine BitVec.eq_of_toNat_eq (hfraction.trans ?_)
    rw [BitVec.toNat_zero]
    omega
  exact congrArg Float.toBits (Float.ofBits_toBits ⟨⟨bits, hvalid⟩⟩)

end Bits

section

variable {negative : Bool} {mantissa : Nat} {exponent : Int}

/-- A double that is put together from a sign and magnitude bits has them. -/
theorem bits_of_signed (negative : Bool) {bits : Nat} (h : bits ≤ 2047 * 2 ^ 52) :
    let x := Float.ofBits (UInt64.ofNat ((if negative then twoTo 63 else 0) + bits))
    magnitudeBits x = bits ∧ isNegative x = negative := by
  intro x
  have hsign : (if negative then twoTo 63 else 0) = 0 ∨
      (if negative then twoTo 63 else 0) = 2 ^ 63 := by
    cases negative
    · exact .inl rfl
    · exact .inr rfl
  have hword : (UInt64.ofNat ((if negative then twoTo 63 else 0) + bits)).toNat =
      (if negative then twoTo 63 else 0) + bits := by
    rw [UInt64.toNat_ofNat', Nat.mod_eq_of_lt (by omega)]
  have hbits : x.toBits.toNat = (if negative then twoTo 63 else 0) + bits := by
    rw [toBits_ofBits (by rw [hword]; omega), hword]
  rw [magnitudeBits, isNegative, hbits, show twoTo 63 = 2 ^ 63 from rfl]
  cases negative
  · simp only [Bool.false_eq_true, if_false, decide_eq_false_iff_not]
    omega
  · simp only [if_true, decide_eq_true_eq]
    omega

/-- The parts of a double whose bits are the mantissa on top of the exponent. -/
theorem parts_of_bits {x : Float} (hsign : isNegative x = negative)
    (hbits : magnitudeBits x = (exponent + 1074).toNat * twoTo 52 + mantissa)
    (h : mantissa = 0 ∧ exponent = -1074 ∨ Canonical mantissa exponent) :
    parts x = .finite negative mantissa exponent := by
  unfold parts
  simp only [hbits, hsign, show twoTo 52 = 2 ^ 52 from rfl]
  rcases h with ⟨rfl, rfl⟩ | ⟨hpos, hlt, hleast, hlargest, hfull⟩
  · rfl
  · rcases Nat.lt_or_ge mantissa (2 ^ 52) with hshort | hlong
    · obtain rfl : exponent = -1074 := hfull.resolve_left (by omega)
      rw [if_neg (by omega), if_pos (by omega), Nat.mod_eq_of_lt (by omega)]
      simp
    · rw [if_neg (by omega), if_neg (by omega), Parts.finite.injEq]
      exact ⟨rfl, by omega, by omega⟩

theorem parts_of_infinite_bits {x : Float} (hsign : isNegative x = negative)
    (hbits : magnitudeBits x = 2047 * 2 ^ 52) : parts x = .infinite negative := by
  unfold parts
  simp only [hbits, hsign, show twoTo 52 = 2 ^ 52 from rfl]
  rfl

end

/-! ## 2. Which double a ratio comes to -/

/-- A rounded quotient is within half of the quotient, and even if it is half away. -/
theorem roundHalfEven_bounds (num : Nat) {den : Nat} (hden : 0 < den) :
    let whole := roundHalfEven num den
    ((whole : ℚ) - 1 / 2 < num / den ∨ whole % 2 = 0 ∧ (whole : ℚ) - 1 / 2 = num / den) ∧
      ((num : ℚ) / den < whole + 1 / 2 ∨ whole % 2 = 0 ∧ (num : ℚ) / den = whole + 1 / 2) := by
  intro whole
  have hden' : (0 : ℚ) < den := by exact_mod_cast hden
  have hwhole : whole =
      if den < 2 * (num % den) ∨ 2 * (num % den) = den ∧ num / den % 2 = 1 then num / den + 1
      else num / den := rfl
  have hrest : num % den < den := Nat.mod_lt num hden
  have hnum : den * (num / den) + num % den = num := Nat.div_add_mod num den
  -- both bounds in whole numbers, multiplied by twice the divisor
  have hbounds : (2 * (den * whole) < 2 * num + den ∨
        whole % 2 = 0 ∧ 2 * (den * whole) = 2 * num + den) ∧
      (2 * num < 2 * (den * whole) + den ∨ whole % 2 = 0 ∧ 2 * num = 2 * (den * whole) + den) := by
    rw [hwhole]
    split
    · rw [Nat.mul_add]
      omega
    · omega
  obtain ⟨hlow, hhigh⟩ := hbounds
  constructor
  · refine hlow.imp (fun h => ?_) (And.imp_right fun h => ?_)
    · rw [lt_div_iff₀ hden']
      rw [← @Nat.cast_lt ℚ] at h
      push_cast at h
      linarith
    · rw [eq_div_iff hden'.ne']
      rw [← @Nat.cast_inj ℚ] at h
      push_cast at h
      linarith
  · refine hhigh.imp (fun h => ?_) (And.imp_right fun h => ?_)
    · rw [div_lt_iff₀ hden']
      rw [← @Nat.cast_lt ℚ] at h
      push_cast at h
      linarith
    · rw [div_eq_iff hden'.ne']
      rw [← @Nat.cast_inj ℚ] at h
      push_cast at h
      linarith

/-- Halfway from the largest double to the next power of two. From here on the largest double is no
longer the nearer one. -/
def overflow : ℚ := (2 ^ 53 - 1 / 2) * 2 ^ (971 : Int)

section

variable {num den mantissa : Nat} {exponent unit : Int} {number : ℚ}

/-- The units that a ratio is counted in are small enough to leave its mantissa 52 bits or more, if
they are not the least ones, and large enough to leave it 53 or fewer. -/
theorem units_bounds (hnum : 0 < num) (hden : 0 < den) :
    let unit := max (ratioLog2 num den - 52) (-1074)
    (num : ℚ) / den / 2 ^ unit < 2 ^ 53 ∧ (-1074 < unit → (2 : ℚ) ^ 52 ≤ num / den / 2 ^ unit) := by
  intro unit
  obtain ⟨hlow, hhigh⟩ := ratioLog2_spec hnum hden
  have hunit : (0 : ℚ) < 2 ^ unit := by positivity
  constructor
  · rw [div_lt_iff₀ hunit]
    calc (num : ℚ) / den < 2 ^ (ratioLog2 num den + 1) := hhigh
      _ ≤ 2 ^ ((53 : Int) + unit) := zpow_le_zpow_right₀ one_le_two (by omega)
      _ = 2 ^ 53 * 2 ^ unit := by
          rw [zpow_add₀ two_ne_zero]
          norm_cast
  · intro hleast
    rw [le_div_iff₀ hunit]
    calc (2 : ℚ) ^ 52 * 2 ^ unit = 2 ^ ((52 : Int) + unit) := by
          rw [zpow_add₀ two_ne_zero]
          norm_cast
      _ = 2 ^ ratioLog2 num den := by congr 1; omega
      _ ≤ num / den := hlow

/-- What is within half a unit of a mantissa rounds to it, if it does not fall short of the first one
that fills its bits. -/
theorem roundsTo_of_half
    (hlow : (mantissa : ℚ) - 1 / 2 < number / 2 ^ exponent ∨
      mantissa % 2 = 0 ∧ (mantissa : ℚ) - 1 / 2 = number / 2 ^ exponent)
    (hhigh : number / 2 ^ exponent < mantissa + 1 / 2 ∨
      mantissa % 2 = 0 ∧ number / 2 ^ exponent = mantissa + 1 / 2)
    (hfull : mantissa = 2 ^ 52 → -1074 < exponent → (2 : ℚ) ^ 52 ≤ number / 2 ^ exponent) :
    RoundsTo mantissa exponent number := by
  have habove : ((Reach.of mantissa exponent).above : ℚ) = 2 := by norm_num [Reach.of]
  constructor
  · rw [Reach.closed_of_iff]
    rcases Reach.below_cases mantissa exponent with ⟨hmantissa, hleast, hbelow⟩ | ⟨-, hbelow⟩
    · have hfull := hfull hmantissa hleast
      rw [hbelow, hmantissa]
      left
      push_cast
      linarith
    · rw [hbelow]
      refine hlow.imp (fun h => ?_) (And.imp_right fun h => ?_) <;> push_cast <;> linarith
  · rw [Reach.closed_of_iff, habove]
    refine hhigh.imp (fun h => ?_) (And.imp_right fun h => ?_) <;> linarith

/-- What rounds up to one more than a mantissa can be rounds to a power of two. -/
theorem roundsTo_of_carry (hleast : -1074 ≤ unit) (hlow : (2 : ℚ) ^ 53 - 1 / 2 ≤ number / 2 ^ unit)
    (hhigh : number / 2 ^ unit < 2 ^ 53) : RoundsTo (2 ^ 52) (unit + 1) number := by
  have hhalved : number / 2 ^ (unit + 1) = number / 2 ^ unit / 2 := by
    rw [zpow_add_one₀ two_ne_zero, div_div]
  have hbelow : (Reach.of (2 ^ 52) (unit + 1)).below = 1 := by
    rcases Reach.below_cases (2 ^ 52) (unit + 1) with ⟨-, -, hbelow⟩ | ⟨hnot, -⟩
    · exact hbelow
    · exact absurd ⟨rfl, by omega⟩ hnot
  have habove : ((Reach.of (2 ^ 52) (unit + 1)).above : ℚ) = 2 := by norm_num [Reach.of]
  constructor
  · rw [Reach.closed_of_iff, hbelow, hhalved]
    push_cast
    rcases hlow.lt_or_eq with hlt | heq
    · left
      linarith
    · right
      exact ⟨by norm_num, by linarith⟩
  · rw [habove, hhalved]
    left
    push_cast
    linarith

/-- The rounded number of units is the ratio in these units to within half of one; it needs no more
than one bit too many, and fills the mantissa if the units are not the least ones. -/
theorem roundedUnits_bounds (hnum : 0 < num) (hden : 0 < den) :
    let unit := max (ratioLog2 num den - 52) (-1074)
    let whole := roundScaled num den (-unit)
    ((whole : ℚ) - 1 / 2 < num / den / 2 ^ unit ∨
        whole % 2 = 0 ∧ (whole : ℚ) - 1 / 2 = num / den / 2 ^ unit) ∧
      ((num : ℚ) / den / 2 ^ unit < whole + 1 / 2 ∨
        whole % 2 = 0 ∧ (num : ℚ) / den / 2 ^ unit = whole + 1 / 2) ∧
      whole ≤ 2 ^ 53 ∧ (-1074 < unit → 2 ^ 52 ≤ whole) := by
  intro unit whole
  obtain ⟨hshort, hfull⟩ := units_bounds hnum hden
  have hratio := scaled_ratio num den (-unit)
  rw [zpow_neg, ← div_eq_mul_inv] at hratio
  obtain ⟨hlow, hhigh⟩ := roundHalfEven_bounds (num * twoTo (-unit).toNat)
    (Nat.mul_pos hden (twoTo_pos (-(-unit)).toNat))
  rw [hratio] at hlow hhigh
  refine ⟨hlow, hhigh, ?_, fun hleast => ?_⟩
  · have hle : (whole : ℚ) - 1 / 2 ≤ num / den / 2 ^ unit := hlow.elim le_of_lt fun h => h.2.le
    have hlt : (whole : ℚ) < 2 ^ 53 + 1 := by linarith
    have hlt' : whole < 2 ^ 53 + 1 := by exact_mod_cast hlt
    omega
  · have hle : (num : ℚ) / den / 2 ^ unit ≤ whole + 1 / 2 := hhigh.elim le_of_lt fun h => h.2.le
    have hlt : (2 : ℚ) ^ 52 < whole + 1 := by linarith [hfull hleast]
    have hlt' : 2 ^ 52 < whole + 1 := by exact_mod_cast hlt
    omega

/-- In units beyond those of the largest doubles, what fills a mantissa is too large. -/
theorem overflow_le_of_units (hgt : 971 < unit) (hfull : (2 : ℚ) ^ 52 ≤ number / 2 ^ unit) :
    overflow ≤ number := by
  have hunit : (0 : ℚ) < 2 ^ unit := by positivity
  calc overflow ≤ 2 ^ 52 * 2 ^ ((971 : Int) + 1) := by
        rw [overflow, zpow_add_one₀ two_ne_zero]
        have hlargest : (0 : ℚ) < 2 ^ (971 : Int) := by positivity
        generalize (2 : ℚ) ^ (971 : Int) = largest at *
        linarith
    _ ≤ 2 ^ 52 * 2 ^ unit := by
        gcongr
        · norm_num
        · omega
    _ ≤ number := (le_div_iff₀ hunit).mp hfull

/-- **Every positive ratio comes to a double.** It is no more than half of the least double, and its
bits are those of zero; or it lies in the span of a double and has its bits; or it lies as far beyond
the largest double as `overflow`, and has the bits of the infinity. -/
theorem nearestBits_cases (hnum : 0 < num) (hden : 0 < den) :
    (nearestBits num den = 0 ∧ (num : ℚ) / den ≤ 2 ^ (-1074 : Int) / 2) ∨
    (∃ mantissa exponent, Canonical mantissa exponent ∧ RoundsTo mantissa exponent (num / den) ∧
      nearestBits num den = (exponent + 1074).toNat * twoTo 52 + mantissa) ∨
    (nearestBits num den = 2047 * 2 ^ 52 ∧ overflow ≤ (num : ℚ) / den) := by
  have hbits := nearestBits_eq hnum.ne' hden.ne'
  obtain ⟨hshort, hfull⟩ := units_bounds hnum hden
  obtain ⟨hlow, hhigh, hle, hge⟩ := roundedUnits_bounds hnum hden
  have hleast : -1074 ≤ max (ratioLog2 num den - 52) (-1074) := le_max_right _ _
  generalize max (ratioLog2 num den - 52) (-1074) = unit at *
  generalize roundScaled num den (-unit) = whole at *
  simp only [show twoTo 52 = 2 ^ 52 from rfl] at hbits ⊢
  have hunit : (0 : ℚ) < 2 ^ unit := by positivity
  have hlow' : (whole : ℚ) - 1 / 2 ≤ num / den / 2 ^ unit := hlow.elim le_of_lt fun h => h.2.le
  rcases Nat.eq_zero_or_pos whole with rfl | hpos
  · left
    obtain rfl : unit = -1074 := by
      by_contra hne
      have := hge (by omega)
      omega
    refine ⟨by rw [hbits]; decide, ?_⟩
    have hhalf : (num : ℚ) / den / 2 ^ (-1074 : Int) ≤ 1 / 2 := by
      rw [Nat.cast_zero, zero_add] at hhigh
      exact hhigh.elim le_of_lt fun h => h.2.le
    rw [div_le_iff₀ hunit] at hhalf
    linarith
  right
  by_cases hlarge : 971 < unit ∨ unit = 971 ∧ whole = 2 ^ 53
  · right
    have hlong : 2 ^ 52 ≤ whole := hge (by omega)
    refine ⟨by omega, ?_⟩
    rcases hlarge with hgt | ⟨rfl, rfl⟩
    · exact overflow_le_of_units hgt (hfull (by omega))
    · rw [overflow, ← le_div_iff₀ hunit]
      exact_mod_cast hlow'
  · left
    rcases Nat.lt_or_eq_of_le hle with hlt | rfl
    · refine ⟨whole, unit, ⟨hpos, hlt, hleast, by omega, ?_⟩, ?_, by omega⟩
      · rcases hleast.lt_or_eq with hgt | heq
        · exact .inl (hge hgt)
        · exact .inr heq.symm
      · exact roundsTo_of_half hlow hhigh fun _ hgt => hfull hgt
    · refine ⟨2 ^ 52, unit + 1, ⟨by omega, by omega, by omega, by omega, .inl le_rfl⟩, ?_, by omega⟩
      exact roundsTo_of_carry hleast (by exact_mod_cast hlow') hshort

end

/-! ## 3. The double nearest to a number -/

/-- A number by its sign and its size. -/
def signed (negative : Bool) (size : ℚ) : ℚ :=
  (if negative then -1 else 1) * size

/-- No double is nearer to the number than the one with these parts, and if another one is as near, it
is the one with the even mantissa. -/
structure Closest (negative : Bool) (mantissa : Nat) (exponent : Int) (number : ℚ) : Prop where
  le : ∀ y sign m e, parts y = .finite sign m e →
    |signed negative (mantissa * 2 ^ exponent) - number| ≤ |signed sign (m * 2 ^ e) - number|
  even : ∀ y sign m e, parts y = .finite sign m e →
    signed sign (m * 2 ^ e) ≠ signed negative (mantissa * 2 ^ exponent) →
    |signed sign (m * 2 ^ e) - number| = |signed negative (mantissa * 2 ^ exponent) - number| →
    mantissa % 2 = 0

/-- The double is the one that the number rounds to. Both zeros are as near as the other one, so the
sign is said as well. -/
inductive NearestTo (negative : Bool) (number : ℚ) (x : Float) : Prop
  | finite (mantissa : Nat) (exponent : Int) (hrange : |number| < overflow)
      (hparts : parts x = .finite negative mantissa exponent)
      (hclosest : Closest negative mantissa exponent number)
  | infinite (hrange : overflow ≤ |number|) (hparts : parts x = .infinite negative)

theorem abs_signed (negative : Bool) (size : ℚ) : |signed negative size| = |size| := by
  cases negative <;> simp [signed]

/-- Changing the sign of both numbers leaves them as far apart as they are. -/
theorem abs_signed_sub_signed (sign negative : Bool) (size number : ℚ) :
    |signed sign size - signed negative number| = |signed (sign ^^ negative) size - number| := by
  cases negative
  · simp [signed]
  · rw [← abs_neg]
    cases sign <;> simp [signed, sub_eq_add_neg, add_comm]

section

variable {low middle high number other : ℚ}

/-- What is at least as near to the middle one of three numbers as to the others is at least as near to
it as to what lies beyond the others. -/
theorem abs_sub_le_of_beyond (hlow : low < middle) (hhigh : middle < high)
    (hafter : low + middle ≤ 2 * number) (hbefore : 2 * number ≤ middle + high)
    (hother : other ≤ low ∨ other = middle ∨ high ≤ other) :
    |middle - number| ≤ |other - number| := by
  rcases hother with hother | rfl | hother
  · refine le_trans ?_ (neg_le_abs _)
    rw [abs_le]
    constructor <;> linarith
  · exact le_rfl
  · refine le_trans ?_ (le_abs_self _)
    rw [abs_le]
    constructor <;> linarith

/-- Only from halfway to one of the others it is as far to something beyond it. -/
theorem halfway_of_abs_sub_eq (hlow : low < middle) (hhigh : middle < high)
    (hafter : low + middle ≤ 2 * number) (hbefore : 2 * number ≤ middle + high)
    (hother : other ≤ low ∨ other = middle ∨ high ≤ other) (hne : other ≠ middle)
    (heq : |other - number| = |middle - number|) :
    low + middle = 2 * number ∨ 2 * number = middle + high := by
  rcases hother with hother | rfl | hother
  · left
    have hdistance : number - other ≤ |middle - number| := by
      rw [← heq, ← neg_sub]
      exact neg_le_abs _
    rcases le_abs.mp hdistance with h | h <;> linarith
  · exact absurd rfl hne
  · right
    have hdistance : other - number ≤ |middle - number| := by
      rw [← heq]
      exact le_abs_self _
    rcases le_abs.mp hdistance with h | h <;> linarith

end

theorem Reach.below_le_two (mantissa : Nat) (exponent : Int) :
    ((Reach.of mantissa exponent).below : ℚ) ≤ 2 := by
  rcases Reach.below_cases mantissa exponent with ⟨-, -, h⟩ | ⟨-, h⟩ <;> norm_num [h]

section

variable {mantissa m : Nat} {exponent e : Int} {number : ℚ}

/-- The mantissa of a double fits and fills its bits, or the exponent is the least one. -/
theorem span_of_parts {y : Float} {sign : Bool} (h : parts y = .finite sign m e) :
    m < 2 ^ 53 ∧ -1074 ≤ e ∧ (2 ^ 52 ≤ m ∨ e = -1074) := by
  obtain ⟨-, -, ⟨rfl, rfl⟩ | hcanonical⟩ := canonical_of_parts h
  · exact ⟨by norm_num, le_rfl, .inr rfl⟩
  · exact ⟨hcanonical.lt, hcanonical.least_le, hcanonical.full_or_least⟩

/-- A double in units at least as large as those of another one is a whole number of its units. -/
theorem exists_units (m : Nat) (hle : exponent ≤ e) :
    ∃ units : Nat, (m : ℚ) * 2 ^ e = units * 2 ^ exponent := by
  refine ⟨m * 2 ^ (e - exponent).toNat, ?_⟩
  have hsplit : e = ((e - exponent).toNat : Int) + exponent := by omega
  push_cast
  rw [mul_assoc, ← zpow_natCast, ← zpow_add₀ two_ne_zero, ← hsplit]

/-- Doubles in smaller units than those of a double lie below the power of two that fills its
mantissa. -/
theorem le_full_of_lt (hlt : m < 2 ^ 53) (h : e < exponent) :
    (m : ℚ) * 2 ^ e ≤ (2 ^ 52 - 1 / 2) * 2 ^ exponent := by
  have hm : (m : ℚ) + 1 ≤ 2 ^ 53 := by exact_mod_cast hlt
  calc (m : ℚ) * 2 ^ e ≤ (2 ^ 53 - 1) * 2 ^ (exponent - 1) := by
        gcongr
        · linarith
        · norm_num
        · omega
    _ = (2 ^ 52 - 1 / 2) * 2 ^ exponent := by
        rw [zpow_sub_one₀ two_ne_zero]
        ring

/-- A larger double is not counted in smaller units. -/
theorem exponent_le_of_le (hfull : 2 ^ 52 ≤ mantissa ∨ exponent = -1074) (hlt : m < 2 ^ 53)
    (hleast : -1074 ≤ e) (h : (mantissa : ℚ) * 2 ^ exponent ≤ m * 2 ^ e) : exponent ≤ e := by
  by_contra hgt
  have hfull' : (2 : ℚ) ^ 52 ≤ mantissa := by exact_mod_cast hfull.resolve_right (by omega)
  have hunit : (0 : ℚ) < 2 ^ exponent := by positivity
  have hshort := le_of_mul_le_mul_right (h.trans (le_full_of_lt hlt (not_le.mp hgt))) hunit
  linarith

/-- Above a double none lies nearer than one unit. -/
theorem next_le (hfull : 2 ^ 52 ≤ mantissa ∨ exponent = -1074) (hlt : m < 2 ^ 53)
    (hleast : -1074 ≤ e) (h : (mantissa : ℚ) * 2 ^ exponent < m * 2 ^ e) :
    (mantissa + 1) * 2 ^ exponent ≤ (m : ℚ) * 2 ^ e := by
  obtain ⟨units, hunits⟩ := exists_units m (exponent_le_of_le hfull hlt hleast h.le)
  rw [hunits] at h ⊢
  have hmore : (mantissa : ℚ) < units := lt_of_mul_lt_mul_right h (by positivity)
  gcongr
  exact_mod_cast hmore

/-- Below a double none lies nearer than twice its reach. -/
theorem le_previous (hcanonical : Canonical mantissa exponent) (hlt : m < 2 ^ 53)
    (hleast : -1074 ≤ e) (h : (m : ℚ) * 2 ^ e < mantissa * 2 ^ exponent) :
    (m : ℚ) * 2 ^ e ≤ (mantissa - (Reach.of mantissa exponent).below / 2) * 2 ^ exponent := by
  have hunit : (0 : ℚ) < 2 ^ exponent := by positivity
  rcases le_or_gt exponent e with hle | hgt
  · obtain ⟨units, hunits⟩ := exists_units m hle
    rw [hunits] at h ⊢
    have hless : (units : ℚ) < mantissa := lt_of_mul_lt_mul_right h hunit.le
    have hless' : (units : ℚ) + 1 ≤ mantissa := by exact_mod_cast hless
    gcongr
    linarith [Reach.below_le_two mantissa exponent]
  · refine (le_full_of_lt hlt hgt).trans (mul_le_mul_of_nonneg_right ?_ hunit.le)
    have hfull := hcanonical.full_or_least.resolve_right (by omega)
    rcases Reach.below_cases mantissa exponent with ⟨rfl, -, hbelow⟩ | ⟨hnot, hbelow⟩
    · rw [hbelow]
      norm_num
    · have hmore : 2 ^ 52 + 1 ≤ mantissa := by omega
      have hmore' : (2 : ℚ) ^ 52 + 1 ≤ mantissa := by exact_mod_cast hmore
      rw [hbelow]
      push_cast
      linarith

/-- **How far the next doubles are**, on either side of a double. Those of the other sign lie beyond
the one below it. -/
theorem apart_of_canonical (hcanonical : Canonical mantissa exponent) (hlt : m < 2 ^ 53)
    (hleast : -1074 ≤ e) (sign : Bool) :
    signed sign (m * 2 ^ e) ≤ (mantissa - (Reach.of mantissa exponent).below / 2) * 2 ^ exponent ∨
      signed sign (m * 2 ^ e) = mantissa * 2 ^ exponent ∨
      (mantissa + 1) * 2 ^ exponent ≤ signed sign (m * 2 ^ e) := by
  cases sign with
  | true =>
    left
    have hmantissa : (1 : ℚ) ≤ mantissa := by exact_mod_cast hcanonical.pos
    have hsize : (0 : ℚ) ≤ m * 2 ^ e := by positivity
    have hbound : (0 : ℚ) ≤ (mantissa - (Reach.of mantissa exponent).below / 2) * 2 ^ exponent :=
      mul_nonneg (by linarith [Reach.below_le_two mantissa exponent]) (by positivity)
    simp only [signed, if_true]
    linarith
  | false =>
    simp only [signed, Bool.false_eq_true, if_false, one_mul]
    rcases lt_trichotomy ((m : ℚ) * 2 ^ e) (mantissa * 2 ^ exponent) with hless | heq | hmore
    · exact .inl (le_previous hcanonical hlt hleast hless)
    · exact .inr (.inl heq)
    · exact .inr (.inr (next_le hcanonical.full_or_least hlt hleast hmore))

/-- What rounds to a double lies between the halfway points to the next ones, or at one of them if the
mantissa is even. -/
theorem RoundsTo.between (h : RoundsTo mantissa exponent number) :
    let below := (mantissa - (Reach.of mantissa exponent).below / 2) * (2 : ℚ) ^ exponent
    let above := (mantissa + 1) * (2 : ℚ) ^ exponent
    (below + mantissa * 2 ^ exponent < 2 * number ∨
        mantissa % 2 = 0 ∧ below + mantissa * 2 ^ exponent = 2 * number) ∧
      (2 * number < mantissa * 2 ^ exponent + above ∨
        mantissa % 2 = 0 ∧ 2 * number = mantissa * 2 ^ exponent + above) := by
  intro below above
  have hunit : (0 : ℚ) < 2 ^ exponent := by positivity
  obtain ⟨hlower, hupper⟩ := h
  have habove : ((Reach.of mantissa exponent).above : ℚ) = 2 := by norm_num [Reach.of]
  rw [Reach.closed_of_iff] at hlower hupper
  rw [habove] at hupper
  have hnumber : number = number / 2 ^ exponent * 2 ^ exponent := by field_simp
  have hbelow : below + mantissa * 2 ^ exponent =
      (4 * mantissa - (Reach.of mantissa exponent).below) / 2 * 2 ^ exponent := by
    simp only [below]
    ring
  have habove' : mantissa * 2 ^ exponent + above = (4 * mantissa + 2) / 2 * 2 ^ exponent := by
    simp only [above]
    ring
  have htwice : 2 * number = 4 * (number / 2 ^ exponent) / 2 * 2 ^ exponent := by
    rw [hnumber]
    field_simp
    ring
  rw [hbelow, habove', htwice, mul_lt_mul_iff_left₀ hunit, mul_lt_mul_iff_left₀ hunit,
    mul_left_inj' hunit.ne', mul_left_inj' hunit.ne', div_lt_div_iff_of_pos_right two_pos,
    div_lt_div_iff_of_pos_right two_pos, div_left_inj' two_ne_zero, div_left_inj' two_ne_zero]
  exact ⟨hlower, hupper⟩

/-- **What rounds to a double is nearest to it.** -/
theorem closest_of_roundsTo (hcanonical : Canonical mantissa exponent)
    (h : RoundsTo mantissa exponent number) (negative : Bool) :
    Closest negative mantissa exponent (signed negative number) := by
  have hunit : (0 : ℚ) < 2 ^ exponent := by positivity
  obtain ⟨hafter, hbefore⟩ := h.between
  have hlow : (mantissa - (Reach.of mantissa exponent).below / 2) * (2 : ℚ) ^ exponent <
      mantissa * 2 ^ exponent := by
    gcongr
    rcases Reach.below_cases mantissa exponent with ⟨-, -, h⟩ | ⟨-, h⟩ <;> norm_num [h]
  have hhigh : (mantissa : ℚ) * 2 ^ exponent < (mantissa + 1) * 2 ^ exponent := by
    gcongr
    linarith
  have hafter' := hafter.elim le_of_lt fun h => h.2.le
  have hbefore' := hbefore.elim le_of_lt fun h => h.2.le
  have hself : signed (negative ^^ negative) (mantissa * 2 ^ exponent) = mantissa * 2 ^ exponent := by
    simp [signed]
  have hbeyond {y sign m e} (hy : parts y = .finite sign m e) :=
    apart_of_canonical hcanonical (span_of_parts hy).1 (span_of_parts hy).2.1 (sign ^^ negative)
  constructor
  · intro y sign m e hy
    rw [abs_signed_sub_signed, abs_signed_sub_signed, hself]
    exact abs_sub_le_of_beyond hlow hhigh hafter' hbefore' (hbeyond hy)
  · intro y sign m e hy hne heq
    have hne' : signed (sign ^^ negative) (m * 2 ^ e) ≠ mantissa * 2 ^ exponent := by
      intro hsame
      apply hne
      rw [← sub_eq_zero, ← abs_eq_zero, abs_signed_sub_signed, hsame, sub_self, abs_zero]
    rw [abs_signed_sub_signed, abs_signed_sub_signed, hself] at heq
    rcases halfway_of_abs_sub_eq hlow hhigh hafter' hbefore' (hbeyond hy) hne' heq with hhalf | hhalf
    · exact (hafter.resolve_left hhalf.not_lt).1
    · exact (hbefore.resolve_left hhalf.not_lt).1

/-- No double is nearer to what is no more than half of the least double than a zero. -/
theorem closest_zero (hnumber : 0 ≤ number) (hsmall : number ≤ 2 ^ (-1074 : Int) / 2)
    (negative : Bool) : Closest negative 0 (-1074) (signed negative number) := by
  have hunit : (0 : ℚ) < 2 ^ (-1074 : Int) := by positivity
  constructor
  · intro y sign m e hy
    have hself : signed (negative ^^ negative) ((0 : Nat) * 2 ^ (-1074 : Int)) = 0 := by simp [signed]
    rw [abs_signed_sub_signed, abs_signed_sub_signed, hself]
    refine abs_sub_le_of_beyond (neg_lt_zero.mpr hunit) hunit (by linarith) (by linarith) ?_
    rcases Nat.eq_zero_or_pos m with rfl | hpos
    · right
      left
      simp [signed]
    · have hm : (1 : ℚ) ≤ m := by exact_mod_cast hpos
      have hsize : (2 : ℚ) ^ (-1074 : Int) ≤ m * 2 ^ e :=
        calc (2 : ℚ) ^ (-1074 : Int) ≤ 2 ^ e := zpow_le_zpow_right₀ one_le_two (span_of_parts hy).2.1
          _ ≤ m * 2 ^ e := le_mul_of_one_le_left (by positivity) hm
      cases sign ^^ negative with
      | true =>
        left
        simp only [signed, if_true]
        linarith
      | false =>
        right
        right
        simp only [signed, Bool.false_eq_true, if_false]
        linarith
  · intro _ _ _ _ _ _ _
    rfl

/-- What rounds to a finite double does not reach as far as the infinity. -/
theorem RoundsTo.lt_overflow (h : RoundsTo mantissa exponent number)
    (hcanonical : Canonical mantissa exponent) : number < overflow := by
  have hunit : (0 : ℚ) < 2 ^ exponent := by positivity
  have hunits : number / 2 ^ exponent < 2 ^ 53 - 1 / 2 := by
    have hlt := hcanonical.lt
    rcases h.half.2 with hbefore | ⟨heven, hbefore⟩
    · have hmantissa : (mantissa : ℚ) + 1 ≤ 2 ^ 53 := by exact_mod_cast hlt
      linarith
    · have hmantissa : (mantissa : ℚ) + 2 ≤ 2 ^ 53 := by
        exact_mod_cast (by omega : mantissa + 2 ≤ 2 ^ 53)
      linarith
  calc number < (2 ^ 53 - 1 / 2) * 2 ^ exponent := (div_lt_iff₀ hunit).mp hunits
    _ ≤ overflow := by
        rw [overflow]
        gcongr
        · norm_num
        · exact hcanonical.le_largest

end

/-! ## 4. One double at most -/

section

variable {x y : Float} {negative : Bool} {mantissa m : Nat} {exponent e : Int} {number : ℚ}

theorem eq_of_bits (hsign : isNegative x = isNegative y) (hbits : magnitudeBits x = magnitudeBits y) :
    x = y := by
  have hx := sign_add_magnitudeBits x
  rw [hsign, hbits, sign_add_magnitudeBits y] at hx
  rw [← Float.ofBits_toBits x, ← Float.ofBits_toBits y, UInt64.toNat_inj.mp hx]

/-- Every canonical pair is a double. -/
theorem exists_parts (hcanonical : Canonical mantissa exponent) (negative : Bool) :
    ∃ x, parts x = .finite negative mantissa exponent := by
  obtain ⟨-, hlt, hleast, hlargest, -⟩ := id hcanonical
  have hle : (exponent + 1074).toNat * twoTo 52 + mantissa ≤ 2047 * 2 ^ 52 := by
    rw [show twoTo 52 = 2 ^ 52 from rfl]
    omega
  obtain ⟨hbits, hsign⟩ := bits_of_signed negative hle
  exact ⟨_, parts_of_bits hsign hbits (.inr hcanonical)⟩

/-- Doubles that are the same number have the same parts. -/
theorem parts_unique (hx : parts x = .finite negative mantissa exponent)
    (hy : parts y = .finite negative m e) (h : (mantissa : ℚ) * 2 ^ exponent = m * 2 ^ e) :
    mantissa = m ∧ exponent = e := by
  obtain ⟨hltx, hleastx, hfullx⟩ := span_of_parts hx
  obtain ⟨hlty, hleasty, hfully⟩ := span_of_parts hy
  obtain rfl : exponent = e := le_antisymm (exponent_le_of_le hfullx hlty hleasty h.le)
    (exponent_le_of_le hfully hltx hleastx h.ge)
  have hunit : (2 : ℚ) ^ exponent ≠ 0 := by positivity
  exact ⟨by exact_mod_cast mul_right_cancel₀ hunit h, rfl⟩

/-- Of two doubles that are as near as any, none is the larger one. Else both mantissas were even; so
the next double after the smaller one is not the larger one, and it lies nearer than they do. -/
theorem Closest.size_le (hx : parts x = .finite negative mantissa exponent)
    (hy : parts y = .finite negative m e) (hnear : Closest negative mantissa exponent number)
    (hnear' : Closest negative m e number) : (m : ℚ) * 2 ^ e ≤ mantissa * 2 ^ exponent := by
  by_contra hlt
  obtain ⟨size, rfl⟩ : ∃ size, number = signed negative size := by
    refine ⟨signed negative number, ?_⟩
    cases negative <;> simp [signed]
  have hdistance (other : ℚ) :
      |signed negative other - signed negative size| = |other - size| := by
    rw [abs_signed_sub_signed, Bool.xor_self]
    simp [signed]
  have hne {a b : ℚ} (h : a ≠ b) : signed negative a ≠ signed negative b := by
    cases negative <;> simpa [signed] using h
  have heq := le_antisymm (hnear'.le x _ _ _ hx) (hnear.le y _ _ _ hy)
  have heven := hnear.even y _ _ _ hy (hne (not_le.mp hlt).ne') heq
  have heven' := hnear'.even x _ _ _ hx (hne (not_le.mp hlt).ne) heq.symm
  obtain ⟨hltx, hleastx, hfullx⟩ := span_of_parts hx
  obtain ⟨hlty, hleasty, -⟩ := span_of_parts hy
  have hlargest : exponent ≤ 971 := by
    obtain ⟨-, -, ⟨-, rfl⟩ | hcanonical⟩ := canonical_of_parts hx
    · norm_num
    · exact hcanonical.le_largest
  have hnext := next_le hfullx hlty hleasty (not_le.mp hlt)
  have hcanonical : Canonical (mantissa + 1) exponent :=
    ⟨by omega, by omega, hleastx, hlargest, by omega⟩
  obtain ⟨z, hz⟩ := exists_parts hcanonical negative
  have hclosest := hnear.le z _ _ _ hz
  rw [hdistance, hdistance] at heq hclosest
  push_cast at hclosest
  rcases hnext.lt_or_eq with hbetween | hsame
  · have hstep : (mantissa : ℚ) * 2 ^ exponent < (mantissa + 1) * 2 ^ exponent := by
      gcongr
      linarith
    have hmiddle : (m : ℚ) * 2 ^ e + mantissa * 2 ^ exponent = 2 * size := by
      rcases abs_eq_abs.mp heq with h | h
      · exact absurd (by linarith) hlt
      · linarith
    have hnearer : |(mantissa + 1) * 2 ^ exponent - size| < size - mantissa * 2 ^ exponent := by
      rw [abs_lt]
      constructor <;> linarith
    have hfar := neg_abs_le ((mantissa : ℚ) * 2 ^ exponent - size)
    linarith
  · have hparts := (parts_unique hz hy (by push_cast; exact hsame)).1
    omega

/-- **No number has two nearest doubles.** -/
theorem NearestTo.unique (hx : NearestTo negative number x) (hy : NearestTo negative number y) :
    x = y := by
  cases hx with
  | finite mantissa exponent hrange hparts hnear =>
    cases hy with
    | finite m e _ hparts' hnear' =>
      obtain ⟨rfl, rfl⟩ := parts_unique hparts hparts'
        (le_antisymm (Closest.size_le hparts' hparts hnear' hnear)
          (Closest.size_le hparts hparts' hnear hnear'))
      obtain ⟨hsign, hbits, -⟩ := canonical_of_parts hparts
      obtain ⟨hsign', hbits', -⟩ := canonical_of_parts hparts'
      exact eq_of_bits (hsign.symm.trans hsign') (hbits.trans hbits'.symm)
    | infinite hrange' _ => exact absurd hrange (not_lt.mpr hrange')
  | infinite hrange hparts =>
    cases hy with
    | finite _ _ hrange' _ _ => exact absurd hrange' (not_lt.mpr hrange)
    | infinite _ hparts' =>
      obtain ⟨hsign, hbits⟩ := bits_of_parts_infinite hparts
      obtain ⟨hsign', hbits'⟩ := bits_of_parts_infinite hparts'
      exact eq_of_bits (hsign.trans hsign'.symm) (hbits.trans hbits'.symm)

end

/-! ## 5. Choosing the nearest double -/

section

variable {number : ℚ}

/-- A zero with its sign is the double nearest to what is no more than half of the least double. -/
theorem nearestTo_zero (hnumber : 0 ≤ number) (hsmall : number ≤ 2 ^ (-1074 : Int) / 2)
    {negative : Bool} {x : Float} (hsign : isNegative x = negative) (hbits : magnitudeBits x = 0) :
    NearestTo negative (signed negative number) x := by
  refine .finite 0 (-1074) ?_ (parts_of_bits hsign (hbits.trans rfl) (.inl ⟨rfl, rfl⟩))
    (closest_zero hnumber hsmall negative)
  rw [abs_signed, abs_of_nonneg hnumber]
  calc number ≤ 2 ^ (-1074 : Int) / 2 := hsmall
    _ < 2 ^ (-1074 : Int) := half_lt_self (by positivity)
    _ ≤ 1 := zpow_le_one_of_nonpos₀ one_le_two (by norm_num)
    _ ≤ 2 ^ (971 : Int) := one_le_zpow₀ one_le_two (by norm_num)
    _ ≤ overflow := le_mul_of_one_le_left (by positivity) (by norm_num)

/-- **Choosing a double by its bits chooses the nearest one**, for every ratio. -/
theorem nearestTo_ofRatio (negative : Bool) (num : Nat) {den : Nat} (hden : 0 < den) :
    NearestTo negative (signed negative (num / den)) (ofRatio negative num den) := by
  have hratio : (0 : ℚ) ≤ num / den := by positivity
  rcases Nat.eq_zero_or_pos num with rfl | hnum
  · obtain ⟨hbits, hsign⟩ := bits_of_signed negative (show 0 ≤ 2047 * 2 ^ 52 by omega)
    refine nearestTo_zero hratio ?_ hsign hbits
    rw [Nat.cast_zero, zero_div]
    positivity
  have hle : nearestBits num den ≤ 2047 * 2 ^ 52 := by
    rw [nearestBits_eq hnum.ne' hden.ne']
    exact min_le_right _ _
  obtain ⟨hbits, hsign⟩ := bits_of_signed negative hle
  rcases nearestBits_cases hnum hden with ⟨hzero, hsmall⟩ |
    ⟨mantissa, exponent, hcanonical, hrounds, hfinite⟩ | ⟨hinfinite, hlarge⟩
  · exact nearestTo_zero hratio hsmall hsign (hbits.trans hzero)
  · refine .finite mantissa exponent ?_
      (parts_of_bits hsign (hbits.trans hfinite) (.inr hcanonical))
      (closest_of_roundsTo hcanonical hrounds negative)
    rw [abs_signed, abs_of_nonneg hratio]
    exact hrounds.lt_overflow hcanonical
  · refine .infinite ?_ (parts_of_infinite_bits hsign (hbits.trans hinfinite))
    rw [abs_signed, abs_of_nonneg hratio]
    exact hlarge

end

theorem parts_infinity (negative : Bool) : parts (infinity negative) = .infinite negative := by
  cases negative <;> decide +kernel

namespace Numeral

variable {numeral : Numeral}

/-- A numeral whose first digit stands too far behind the point is less than half of the least
double. -/
theorem magnitude_le_of_small (h : numeral.digits = 0 ∨
      ((Nat.toDigits 10 numeral.digits).length : Int) + numeral.exponent ≤ -324) :
    numeral.magnitude ≤ 2 ^ (-1074 : Int) / 2 := by
  by_cases hdigits : numeral.digits = 0
  · rw [magnitude, hdigits, Nat.cast_zero, zero_mul]
    positivity
  calc numeral.magnitude
      ≤ 10 ^ (((Nat.toDigits 10 numeral.digits).length : Int) + numeral.exponent) :=
        (magnitude_bounds hdigits).2.le
    _ ≤ 10 ^ (-324 : Int) := zpow_le_zpow_right₀ (by norm_num) (h.resolve_left hdigits)
    _ ≤ 2 ^ (-1074 : Int) / 2 := ten_zpow_lt_half_least.le

/-- A numeral whose first digit stands too far before the point is beyond the largest double. -/
theorem overflow_le_magnitude (hdigits : numeral.digits ≠ 0)
    (h : 310 ≤ ((Nat.toDigits 10 numeral.digits).length : Int) + numeral.exponent) :
    overflow ≤ numeral.magnitude := by
  calc overflow ≤ 2 ^ 53 * 2 ^ (971 : Int) := by
        rw [overflow]
        gcongr
        linarith
    _ = 2 ^ (1024 : Int) := by
        rw [← zpow_natCast, ← zpow_add₀ two_ne_zero]
        norm_num only
    _ ≤ 10 ^ (309 : Int) := two_zpow_lt_ten_zpow.le
    _ ≤ 10 ^ (((Nat.toDigits 10 numeral.digits).length : Int) + numeral.exponent - 1) :=
        zpow_le_zpow_right₀ (by norm_num) (by omega)
    _ ≤ numeral.magnitude := (magnitude_bounds hdigits).1

/-- **A numeral is read as the double nearest to its value.** -/
theorem nearestTo_toFloat (numeral : Numeral) :
    NearestTo numeral.negative numeral.value numeral.toFloat := by
  have hvalue : numeral.value = signed numeral.negative numeral.magnitude := rfl
  have hmagnitude : 0 ≤ numeral.magnitude := by
    unfold magnitude
    positivity
  rw [hvalue]
  unfold toFloat
  simp only
  split_ifs with hsmall hlarge
  · obtain ⟨hbits, hsign⟩ := bits_of_signed numeral.negative (show 0 ≤ 2047 * 2 ^ 52 by omega)
    exact nearestTo_zero hmagnitude (magnitude_le_of_small hsmall) hsign hbits
  · refine .infinite ?_ (parts_infinity numeral.negative)
    rw [abs_signed, abs_of_nonneg hmagnitude]
    exact overflow_le_magnitude (fun h => hsmall (.inl h)) hlarge
  · rw [magnitude_eq_div]
    exact nearestTo_ofRatio numeral.negative _ (tenTo_pos _)

end Numeral

end GlyphStack.Number
