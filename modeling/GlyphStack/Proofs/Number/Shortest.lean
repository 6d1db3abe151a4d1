import GlyphStack.Proofs.Number.Nearest

/-!
The shortest decimal of a double rounds to it (`roundsTo_shortest`). A grid is taken only if one of
the neighbours of the double on it lies in the span of numbers that round to the double, so what is
left to show is that some grid is taken before the last one is used as it is. There the steps of the
grid are shorter than the span: seventeen digits are enough, because `2^53 < 10^16`.
-/

namespace GlyphStack.Number

/-- The value of a decimal. -/
def Decimal.value (d : Decimal) : ℚ :=
  d.digits * 10 ^ d.exponent

/-- Zeros at the end of the digits do not matter to the value. -/
theorem Decimal.value_trimmed (d : Decimal) : d.trimmed.value = d.value := by
  fun_induction Decimal.trimmed d with
  | case1 d h ih =>
    have hdigits : ((d.digits / 10 : Nat) : ℚ) * 10 = d.digits := by
      exact_mod_cast Nat.div_mul_cancel (Nat.dvd_of_mod_eq_zero h.2)
    rw [ih, value, value, ← hdigits, zpow_add_one₀ (by norm_num)]
    ring
  | case2 d h => rfl

/-! ## 1. The leading digit -/

/-- The power of ten of the leading digit is not above the ratio. -/
theorem ratioLog10_le {num den : Nat} (hnum : 0 < num) (hden : 0 < den) :
    (10 : ℚ) ^ ratioLog10 num den ≤ num / den := by
  have hden' : (0 : ℚ) < den := by exact_mod_cast hden
  unfold ratioLog10
  split
  · next hle =>
    obtain ⟨places, hplaces⟩ : ∃ places, (Nat.toDigits 10 (num / den)).length = places + 1 :=
      ⟨_, (Nat.succ_pred_eq_of_pos Nat.length_toDigits_pos).symm⟩
    have hpow : 10 ^ places ≤ num / den := by
      rcases Nat.eq_zero_or_pos places with rfl | hpos
      · rw [pow_zero]
        exact Nat.div_pos hle hden
      · by_contra hlt
        have := (Nat.length_toDigits_le_iff (by norm_num) hpos).mpr (Nat.lt_of_not_ge hlt)
        omega
    rw [hplaces, Nat.cast_add_one, add_sub_cancel_right, zpow_natCast, le_div_iff₀ hden']
    exact_mod_cast (Nat.mul_le_mul_right den hpow).trans (Nat.div_mul_le_self num den)
  · next hgt =>
    have hpow : (den - 1) / num < 10 ^ (Nat.toDigits 10 ((den - 1) / num)).length :=
      (Nat.length_toDigits_le_iff (by norm_num) Nat.length_toDigits_pos).mp (Nat.le_refl _)
    rw [Nat.div_lt_iff_lt_mul hnum] at hpow
    have hle : den ≤ 10 ^ (Nat.toDigits 10 ((den - 1) / num)).length * num := by omega
    rw [zpow_neg, zpow_natCast, inv_eq_one_div, div_le_div_iff₀ (by positivity) hden', one_mul,
      mul_comm]
    exact_mod_cast hle

/-! ## 2. Neighbours on a grid -/

section

variable {reach : Reach} {mantissa num den digits : Nat}

theorem Reach.within_iff {x y : Nat} :
    reach.within x y = true ↔ x < y ∨ reach.closed = true ∧ x = y := by
  simp [Reach.within]

/-- A point of the grid lies within the reach if it passes the test at both ends of it. -/
theorem Reach.holds_of_within (hnum : 0 < num) (hbelow : reach.below ≤ 4 * mantissa)
    (hlower : reach.within ((4 * mantissa - reach.below) * num) (digits * den) = true)
    (hupper : reach.within (digits * den) ((4 * mantissa + reach.above) * num) = true) :
    reach.Holds mantissa (digits * (den / num)) := by
  have hnum' : (0 : ℚ) < num := by exact_mod_cast hnum
  have hends : ((4 * mantissa - reach.below : Nat) : ℚ) = 4 * mantissa - reach.below := by
    push_cast [hbelow]
    rfl
  rw [within_iff] at hlower hupper
  rw [← mul_div_assoc]
  constructor
  · rw [← hends, lt_div_iff₀ hnum', eq_div_iff hnum'.ne']
    exact_mod_cast hlower
  · rw [div_lt_iff₀ hnum', div_eq_iff hnum'.ne']
    exact_mod_cast hupper

/-- What is taken on a grid lies within the reach. -/
theorem holds_of_onGrid (hnum : 0 < num) (hden : 0 < den) (hbelow : 0 < reach.below)
    (hbelow' : reach.below ≤ 4 * mantissa) (habove : 0 < reach.above)
    (h : onGrid mantissa reach num den = some digits) :
    reach.Holds mantissa (digits * (den / num)) := by
  have hsplit := Nat.div_add_mod (4 * mantissa * num) den
  have hrest := Nat.mod_lt (4 * mantissa * num) hden
  have hbelowNum : 0 < reach.below * num := Nat.mul_pos hbelow hnum
  have haboveNum : 0 < reach.above * num := Nat.mul_pos habove hnum
  have hbelowNum' : reach.below * num ≤ 4 * mantissa * num := Nat.mul_le_mul_right num hbelow'
  rw [Nat.mul_comm den] at hsplit
  unfold onGrid at h
  simp only at h
  split_ifs at h with hfits hfits'
  · -- the neighbour below is not above the double, so it is below the upper end
    simp only [Bool.and_eq_true] at hfits
    injection h with hdigits
    subst hdigits
    refine Reach.holds_of_within hnum hbelow' hfits.1 (Reach.within_iff.mpr (.inl ?_))
    rw [Nat.add_mul]
    omega
  · injection h with hdigits
    subst hdigits
    refine Reach.holds_of_within hnum hbelow' (Reach.within_iff.mpr (.inl ?_)) hfits'
    rw [Nat.add_mul, Nat.sub_mul]
    omega

/-- If nothing is taken on a grid, then its steps are as long as the reach. -/
theorem reach_le_of_onGrid (hbelow : reach.below ≤ 4 * mantissa)
    (h : onGrid mantissa reach num den = none) :
    (reach.below + reach.above) * num ≤ den := by
  have hbelow' : reach.below * num ≤ 4 * mantissa * num := Nat.mul_le_mul_right num hbelow
  unfold onGrid at h
  simp only at h
  split_ifs at h with hfits hfits'
  simp only [Bool.not_eq_true] at hfits'
  simp only [hfits', Bool.not_false, Bool.true_or, Bool.and_true] at hfits
  rw [Reach.within_iff, Nat.sub_mul] at hfits
  rw [← Bool.not_eq_true, Reach.within_iff, Nat.add_mul, Nat.add_mul] at hfits'
  rw [Nat.add_mul]
  omega

end

/-! ## 3. The grids in turn -/

section

variable {mantissa : Nat} {exponent : Int}

/-- The double on the grid with steps of `10^step`, with the quarters of its unit in such steps. -/
def atStep (mantissa : Nat) (exponent step : Int) : Option Nat :=
  onGrid mantissa (Reach.of mantissa exponent) (twoTo (exponent - 2).toNat * tenTo (-step).toNat)
    (twoTo (2 - exponent).toNat * tenTo step.toNat)

theorem firstOnGrid_of_some {digits finer : Nat} {step : Int}
    (h : atStep mantissa exponent step = some digits) :
    firstOnGrid mantissa exponent finer step = { digits, exponent := step } := by
  unfold atStep at h
  rw [firstOnGrid.eq_def]
  simp only [h]

theorem firstOnGrid_of_none {finer : Nat} {step : Int} (h : atStep mantissa exponent step = none) :
    firstOnGrid mantissa exponent (finer + 1) step =
      firstOnGrid mantissa exponent finer (step - 1) := by
  unfold atStep at h
  rw [firstOnGrid.eq_def]
  simp only [h]

/-- A step of the grid in quarters of the unit. -/
theorem step_quarters (exponent step : Int) :
    ((twoTo (2 - exponent).toNat * tenTo step.toNat : Nat) : ℚ) /
      ((twoTo (exponent - 2).toNat * tenTo (-step).toNat : Nat) : ℚ) =
      4 * (10 ^ step / 2 ^ exponent) := by
  have htwo : (2 : ℚ) ^ (2 - exponent).toNat / 2 ^ (exponent - 2).toNat = 4 / 2 ^ exponent := by
    rw [show exponent - 2 = -(2 - exponent) by ring, pow_toNat_div, zpow_sub₀ two_ne_zero]
    norm_num
  rw [Nat.cast_mul, Nat.cast_mul, natCast_twoTo, natCast_twoTo, natCast_tenTo, natCast_tenTo,
    mul_div_mul_comm, htwo, pow_toNat_div]
  ring

theorem Canonical.reach (h : Canonical mantissa exponent) :
    0 < (Reach.of mantissa exponent).below ∧
      (Reach.of mantissa exponent).below ≤ 4 * mantissa := by
  have hpos := h.pos
  rcases Reach.below_cases mantissa exponent with ⟨-, -, hbelow⟩ | ⟨-, hbelow⟩ <;>
    exact ⟨by omega, by omega⟩

/-- What is taken on a grid rounds to the double. -/
theorem roundsTo_of_atStep (hcanonical : Canonical mantissa exponent) {digits : Nat} {step : Int}
    (h : atStep mantissa exponent step = some digits) :
    RoundsTo mantissa exponent (Decimal.value { digits, exponent := step }) := by
  obtain ⟨hbelow, hbelow'⟩ := hcanonical.reach
  have hholds := holds_of_onGrid (Nat.mul_pos (twoTo_pos _) (tenTo_pos _))
    (Nat.mul_pos (twoTo_pos _) (tenTo_pos _)) hbelow hbelow' (by norm_num [Reach.of]) h
  rw [step_quarters] at hholds
  have hquarters : 4 * (Decimal.value { digits, exponent := step } / 2 ^ exponent) =
      digits * (4 * (10 ^ step / 2 ^ exponent)) := by
    rw [Decimal.value]
    ring
  rw [RoundsTo, hquarters]
  exact hholds

/-- The first grid on which something is taken gives a decimal that rounds to the double. -/
theorem roundsTo_firstOnGrid (hcanonical : Canonical mantissa exponent) (finer : Nat) (step : Int)
    (hlast : atStep mantissa exponent (step - finer) ≠ none) :
    RoundsTo mantissa exponent (firstOnGrid mantissa exponent finer step).value := by
  induction finer generalizing step with
  | zero =>
    rw [Nat.cast_zero, sub_zero] at hlast
    obtain ⟨digits, hdigits⟩ := Option.ne_none_iff_exists'.mp hlast
    rw [firstOnGrid_of_some hdigits]
    exact roundsTo_of_atStep hcanonical hdigits
  | succ finer ih =>
    cases hhere : atStep mantissa exponent step with
    | some digits =>
      rw [firstOnGrid_of_some hhere]
      exact roundsTo_of_atStep hcanonical hhere
    | none =>
      rw [firstOnGrid_of_none hhere]
      refine ih (step - 1) ?_
      rwa [show step - 1 - (finer : Int) = step - ((finer + 1 : Nat) : Int) by push_cast; ring]

/-- On the grid with seventeen digits the steps are shorter than the reach. -/
theorem atStep_ne_none (hcanonical : Canonical mantissa exponent) {leading : Int}
    (hleading : (10 : ℚ) ^ leading ≤ mantissa * 2 ^ exponent) :
    atStep mantissa exponent (leading - 16) ≠ none := by
  intro hnone
  have hle := reach_le_of_onGrid hcanonical.reach.2 hnone
  have hnum : (0 : ℚ) <
      ((twoTo (exponent - 2).toNat * tenTo (-(leading - 16)).toNat : Nat) : ℚ) := by
    exact_mod_cast Nat.mul_pos (twoTo_pos _) (tenTo_pos _)
  have hunit : (0 : ℚ) < 2 ^ exponent := by positivity
  have hstep : (10 : ℚ) ^ (leading - 16) / 2 ^ exponent ≤ mantissa / 10 ^ 16 := by
    rw [div_le_iff₀ hunit, zpow_sub₀ (by norm_num), div_mul_eq_mul_div]
    norm_num at hleading ⊢
    linarith
  have hreach : (((Reach.of mantissa exponent).below + 2 : Nat) : ℚ) ≤ 4 * (mantissa / 10 ^ 16) := by
    have hquot : (((Reach.of mantissa exponent).below + (Reach.of mantissa exponent).above : Nat) : ℚ) ≤
        4 * (10 ^ (leading - 16) / 2 ^ exponent) := by
      rw [← step_quarters, le_div_iff₀ hnum]
      exact_mod_cast hle
    have habove : (Reach.of mantissa exponent).above = 2 := rfl
    rw [habove] at hquot
    linarith
  have hmantissa : (mantissa : ℚ) < 2 ^ 53 := by exact_mod_cast hcanonical.lt
  rcases Reach.below_cases mantissa exponent with ⟨hfirst, -, hbelow⟩ | ⟨-, hbelow⟩
  · rw [hbelow, hfirst] at hreach
    norm_num at hreach
  · rw [hbelow] at hreach
    linarith

/-- **The shortest decimal of a double rounds to that double.** -/
theorem roundsTo_shortest (h : Canonical mantissa exponent) :
    RoundsTo mantissa exponent (shortest mantissa exponent).value := by
  have hleading : (10 : ℚ) ^
      ratioLog10 (mantissa * twoTo exponent.toNat) (twoTo (-exponent).toNat) ≤
      mantissa * 2 ^ exponent := by
    have hlog := ratioLog10_le (Nat.mul_pos h.pos (twoTo_pos exponent.toNat))
      (twoTo_pos (-exponent).toNat)
    rwa [Nat.cast_mul, natCast_twoTo, natCast_twoTo, mul_div_assoc, pow_toNat_div] at hlog
  rw [shortest, Decimal.value_trimmed]
  exact roundsTo_firstOnGrid h 16 _ (atStep_ne_none h hleading)

end

end GlyphStack.Number
