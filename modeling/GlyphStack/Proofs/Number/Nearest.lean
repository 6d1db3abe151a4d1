import Mathlib.Algebra.Order.Field.Basic
import Mathlib.Algebra.Order.Field.Power
import Mathlib.Algebra.Order.Ring.Rat
import Mathlib.Tactic.FieldSimp
import Mathlib.Tactic.GCongr
import Mathlib.Tactic.Linarith
import Mathlib.Tactic.NormNum
import Mathlib.Tactic.Positivity
import Mathlib.Tactic.Ring
import Mathlib.Tactic.SplitIfs
import GlyphStack.Number.Shortest

/-!
Which ratios round to a double. Around a double there is a span of numbers that it is the nearest
double to (`RoundsTo`), half a unit to each side, ends included where the mantissa is even; below a
power of two the units are half as large, and the span reaches half as far. Choosing the nearest
double by its bits gives that double back for each ratio in the span
(`nearestBits_of_roundsTo`).

The bits are found in units that hang on the ratio and not on the double. So the one case that needs
care is a ratio just below a power of two: it is counted in the smaller units, rounds up to
`2^53` of them, and carries into the exponent.
-/

namespace GlyphStack.Number

/-! ## 1. Powers with whole exponents -/

theorem natCast_twoTo (k : Nat) : (twoTo k : ℚ) = 2 ^ k := by
  change ((2 ^ k : Nat) : ℚ) = 2 ^ k
  push_cast
  rfl

theorem natCast_tenTo (k : Nat) : (tenTo k : ℚ) = 10 ^ k := by
  change ((10 ^ k : Nat) : ℚ) = 10 ^ k
  push_cast
  rfl

theorem twoTo_pos (k : Nat) : 0 < twoTo k := Nat.pow_pos (by decide)

theorem tenTo_pos (k : Nat) : 0 < tenTo k := Nat.pow_pos (by decide)

/-- A power is the quotient of one with the exponent, if that is positive, and one with its negative,
if that is. -/
theorem pow_toNat_div (base : ℚ) (k : Int) : base ^ k.toNat / base ^ (-k).toNat = base ^ k := by
  rcases Int.le_total 0 k with hk | hk
  · have hneg : (-k).toNat = 0 := by omega
    have hpos : ((k.toNat : Nat) : Int) = k := by omega
    rw [hneg, pow_zero, div_one, ← zpow_natCast, hpos]
  · have hpos : k.toNat = 0 := by omega
    have hneg : (((-k).toNat : Nat) : Int) = -k := by omega
    rw [hpos, pow_zero, ← zpow_natCast, hneg, zpow_neg, one_div, inv_inv]

/-- A ratio scaled by a power of two stays a ratio. -/
theorem scaled_ratio (num den : Nat) (k : Int) :
    ((num * twoTo k.toNat : Nat) : ℚ) / ((den * twoTo (-k).toNat : Nat) : ℚ) =
      num / den * 2 ^ k := by
  rw [← pow_toNat_div 2, Nat.cast_mul, Nat.cast_mul, natCast_twoTo, natCast_twoTo,
    mul_div_mul_comm]

/-- Half of the least double is more than this power of ten. -/
theorem ten_zpow_lt_half_least : (10 : ℚ) ^ (-324 : Int) < 2 ^ (-1074 : Int) / 2 := by
  have hnat : 2 ^ 1074 * 2 < 10 ^ 324 := by decide +kernel
  have hcast : (2 : ℚ) ^ 1074 * 2 < 10 ^ 324 := by exact_mod_cast hnat
  have hpow : (0 : ℚ) < 2 ^ 1074 * 2 := by positivity
  calc (10 : ℚ) ^ (-324 : Int) = (10 ^ 324)⁻¹ := by rw [zpow_neg, zpow_ofNat]
    _ < (2 ^ 1074 * 2)⁻¹ := inv_strictAnti₀ hpow hcast
    _ = 2 ^ (-1074 : Int) / 2 := by rw [mul_inv, zpow_neg, zpow_ofNat, div_eq_mul_inv]

/-- The doubles end before this power of ten. -/
theorem two_zpow_lt_ten_zpow : (2 : ℚ) ^ (1024 : Int) < 10 ^ (309 : Int) := by
  have hnat : 2 ^ 1024 < 10 ^ 309 := by decide +kernel
  exact_mod_cast hnat

/-- The exponent of a ratio is the one of the largest power of two that is not above it. -/
theorem ratioLog2_spec {num den : Nat} (hnum : 0 < num) (hden : 0 < den) :
    (2 : ℚ) ^ ratioLog2 num den ≤ num / den ∧ (num : ℚ) / den < 2 ^ (ratioLog2 num den + 1) := by
  have hden' : (0 : ℚ) < den := by exact_mod_cast hden
  have hnumLow : (2 : ℚ) ^ (num.log2 : Int) ≤ num := by
    exact_mod_cast Nat.log2_self_le hnum.ne'
  have hnumHigh : (num : ℚ) < 2 ^ ((num.log2 : Int) + 1) := by
    exact_mod_cast Nat.lt_log2_self (n := num)
  have hdenLow : (2 : ℚ) ^ (den.log2 : Int) ≤ den := by
    exact_mod_cast Nat.log2_self_le hden.ne'
  have hdenHigh : (den : ℚ) < 2 ^ ((den.log2 : Int) + 1) := by
    exact_mod_cast Nat.lt_log2_self (n := den)
  have hguess (k : Int) : num * twoTo (-k).toNat < den * twoTo k.toNat ↔
      (num : ℚ) / den < 2 ^ k := by
    have hpow : (0 : ℚ) < 2 ^ (-k).toNat := by positivity
    rw [← pow_toNat_div 2, div_lt_div_iff₀ hden' hpow, ← @Nat.cast_lt ℚ,
      Nat.cast_mul, Nat.cast_mul, natCast_twoTo, natCast_twoTo, mul_comm (den : ℚ)]
  have hbelow : (2 : ℚ) ^ ((num.log2 : Int) - den.log2 - 1) ≤ num / den := by
    rw [le_div_iff₀ hden']
    calc (2 : ℚ) ^ ((num.log2 : Int) - den.log2 - 1) * den
        ≤ 2 ^ ((num.log2 : Int) - den.log2 - 1) * 2 ^ ((den.log2 : Int) + 1) := by gcongr
      _ = 2 ^ (num.log2 : Int) := by rw [← zpow_add₀ two_ne_zero]; congr 1; ring
      _ ≤ num := hnumLow
  have habove : (num : ℚ) / den < 2 ^ ((num.log2 : Int) - den.log2 + 1) := by
    rw [div_lt_iff₀ hden']
    calc (num : ℚ) < 2 ^ ((num.log2 : Int) + 1) := hnumHigh
      _ = 2 ^ ((num.log2 : Int) - den.log2 + 1) * 2 ^ (den.log2 : Int) := by
          rw [← zpow_add₀ two_ne_zero]; congr 1; ring
      _ ≤ 2 ^ ((num.log2 : Int) - den.log2 + 1) * den := by gcongr
  have hdef : ratioLog2 num den =
      if (num : ℚ) / den < 2 ^ ((num.log2 : Int) - den.log2) then (num.log2 : Int) - den.log2 - 1
      else (num.log2 : Int) - den.log2 := by
    unfold ratioLog2
    simp only [hguess]
  rw [hdef]
  split_ifs with hguessed
  · rw [sub_add_cancel]
    exact ⟨hbelow, hguessed⟩
  · exact ⟨not_lt.mp hguessed, habove⟩

/-- What lies in one octave has its exponent. -/
theorem ratioLog2_eq {num den : Nat} {k : Int} (hnum : 0 < num) (hden : 0 < den)
    (hlow : (2 : ℚ) ^ k ≤ num / den) (hhigh : (num : ℚ) / den < 2 ^ (k + 1)) :
    ratioLog2 num den = k := by
  obtain ⟨hlow', hhigh'⟩ := ratioLog2_spec hnum hden
  have hlt := (zpow_lt_zpow_iff_right₀ one_lt_two).mp (hlow.trans_lt hhigh')
  have hlt' := (zpow_lt_zpow_iff_right₀ one_lt_two).mp (hlow'.trans_lt hhigh)
  omega

/-! ## 2. Rounding to whole numbers -/

/-- The rounded quotient by its bounds, both multiplied by twice the divisor. -/
theorem roundHalfEven_eq_of_bounds {num den whole : Nat} (hden : 0 < den)
    (hlow : 2 * (whole * den) < 2 * num + den ∨
      whole % 2 = 0 ∧ 2 * (whole * den) = 2 * num + den)
    (hhigh : 2 * num < 2 * (whole * den) + den ∨
      whole % 2 = 0 ∧ 2 * num = 2 * (whole * den) + den) :
    roundHalfEven num den = whole := by
  have hdef : roundHalfEven num den =
      if den < 2 * (num % den) ∨ 2 * (num % den) = den ∧ num / den % 2 = 1 then num / den + 1
      else num / den := rfl
  obtain ⟨below, hbelow⟩ : ∃ below, num / den = below := ⟨_, rfl⟩
  have hrest : num % den < den := Nat.mod_lt num hden
  have hnum : below * den + num % den = num := by
    rw [← hbelow, Nat.mul_comm]
    exact Nat.div_add_mod num den
  -- the quotient is the whole number or the one before it
  have hle : below ≤ whole := by
    by_contra hgt
    have hmul : (whole + 1) * den ≤ below * den := Nat.mul_le_mul_right den (by omega)
    rw [Nat.add_mul] at hmul
    omega
  have hge : whole ≤ below + 1 := by
    by_contra hlt
    have hmul : (below + 2) * den ≤ whole * den := Nat.mul_le_mul_right den (by omega)
    rw [Nat.add_mul] at hmul
    omega
  rw [hdef, hbelow]
  rcases Nat.lt_or_ge below whole with hlt | hge'
  · obtain rfl : whole = below + 1 := by omega
    rw [Nat.add_mul] at hlow
    split <;> omega
  · obtain rfl : below = whole := by omega
    split <;> omega

/-- What lies within half of a whole number rounds to it, and an even one takes both ends. -/
theorem roundHalfEven_eq {num den whole : Nat} (hden : 0 < den)
    (hlow : (whole : ℚ) - 1 / 2 < num / den ∨ whole % 2 = 0 ∧ (whole : ℚ) - 1 / 2 = num / den)
    (hhigh : (num : ℚ) / den < whole + 1 / 2 ∨ whole % 2 = 0 ∧ (num : ℚ) / den = whole + 1 / 2) :
    roundHalfEven num den = whole := by
  have hden' : (0 : ℚ) < den := by exact_mod_cast hden
  refine roundHalfEven_eq_of_bounds hden ?_ ?_
  · refine hlow.imp (fun h => ?_) (And.imp_right fun h => ?_)
    · rw [lt_div_iff₀ hden'] at h
      rw [← @Nat.cast_lt ℚ]
      push_cast
      linarith
    · rw [eq_div_iff hden'.ne'] at h
      rw [← @Nat.cast_inj ℚ]
      push_cast
      linarith
  · refine hhigh.imp (fun h => ?_) (And.imp_right fun h => ?_)
    · rw [div_lt_iff₀ hden'] at h
      rw [← @Nat.cast_lt ℚ]
      push_cast
      linarith
    · rw [div_eq_iff hden'.ne'] at h
      rw [← @Nat.cast_inj ℚ]
      push_cast
      linarith

/-! ## 3. The span of a double -/

/-- A mantissa and an exponent as a double has them: the mantissa fills its bits, or the exponent is
the least one. -/
structure Canonical (mantissa : Nat) (exponent : Int) : Prop where
  pos : 0 < mantissa
  lt : mantissa < 2 ^ 53
  least_le : -1074 ≤ exponent
  le_largest : exponent ≤ 971
  full_or_least : 2 ^ 52 ≤ mantissa ∨ exponent = -1074

/-- A double is its magnitude bits with the sign on top. -/
theorem sign_add_magnitudeBits (x : Float) :
    (if isNegative x then twoTo 63 else 0) + magnitudeBits x = x.toBits.toNat := by
  have hlt : x.toBits.toNat < 2 ^ 64 := x.toBits.toNat_lt
  simp only [isNegative, magnitudeBits, show twoTo 63 = 2 ^ 63 from rfl, decide_eq_true_eq]
  split <;> omega

/-- The bits of a finite double are the mantissa on top of the exponent. It is a zero, or its parts
are canonical. -/
theorem canonical_of_parts {x : Float} {negative : Bool} {mantissa : Nat} {exponent : Int}
    (h : parts x = .finite negative mantissa exponent) :
    negative = isNegative x ∧
      magnitudeBits x = (exponent + 1074).toNat * twoTo 52 + mantissa ∧
      (mantissa = 0 ∧ exponent = -1074 ∨ Canonical mantissa exponent) := by
  have hbits : magnitudeBits x < 2 ^ 63 := Nat.mod_lt _ (twoTo_pos 63)
  have hsplit := Nat.div_add_mod (magnitudeBits x) (twoTo 52)
  have hfraction : magnitudeBits x % twoTo 52 < 2 ^ 52 := Nat.mod_lt _ (twoTo_pos 52)
  unfold parts at h
  simp only [show twoTo 52 = 2 ^ 52 from rfl] at h hsplit hfraction ⊢
  split_ifs at h with hspecial hinfinite hleast
  · injection h with hneg hmantissa hexponent
    subst hneg hmantissa hexponent
    refine ⟨rfl, by omega, ?_⟩
    rcases Nat.eq_zero_or_pos (magnitudeBits x % 2 ^ 52) with hzero | hpos
    · exact .inl ⟨hzero, rfl⟩
    · exact .inr ⟨hpos, by omega, by omega, by omega, .inr rfl⟩
  · injection h with hneg hmantissa hexponent
    subst hneg hmantissa hexponent
    exact ⟨rfl, by omega, .inr ⟨by omega, by omega, by omega, by omega, .inl (by omega)⟩⟩

/-- The number, in quarters of the unit, lies within the reach of the mantissa. -/
structure Reach.Holds (reach : Reach) (mantissa : Nat) (quarters : ℚ) : Prop where
  lower : 4 * (mantissa : ℚ) - reach.below < quarters ∨
    reach.closed = true ∧ 4 * (mantissa : ℚ) - reach.below = quarters
  upper : quarters < 4 * (mantissa : ℚ) + reach.above ∨
    reach.closed = true ∧ quarters = 4 * (mantissa : ℚ) + reach.above

/-- The double `mantissa · 2^exponent` is the one that the number rounds to. -/
def RoundsTo (mantissa : Nat) (exponent : Int) (number : ℚ) : Prop :=
  (Reach.of mantissa exponent).Holds mantissa (4 * (number / 2 ^ exponent))

theorem Reach.closed_of_iff (mantissa : Nat) (exponent : Int) :
    (Reach.of mantissa exponent).closed = true ↔ mantissa % 2 = 0 := by
  simp [Reach.of]

/-- Below a power of two the reach is one quarter, and half a unit everywhere else. -/
theorem Reach.below_cases (mantissa : Nat) (exponent : Int) :
    mantissa = 2 ^ 52 ∧ -1074 < exponent ∧ (Reach.of mantissa exponent).below = 1 ∨
      ¬(mantissa = 2 ^ 52 ∧ -1074 < exponent) ∧ (Reach.of mantissa exponent).below = 2 := by
  unfold Reach.of
  simp only [show twoTo 52 = 2 ^ 52 from rfl]
  split_ifs with h
  · exact .inl ⟨h.1, h.2, rfl⟩
  · exact .inr ⟨h, rfl⟩

namespace RoundsTo

variable {mantissa : Nat} {exponent : Int} {number : ℚ}

/-- Half a unit to each side is the most that the span takes in. -/
theorem half (h : RoundsTo mantissa exponent number) :
    ((mantissa : ℚ) - 1 / 2 < number / 2 ^ exponent ∨
        mantissa % 2 = 0 ∧ (mantissa : ℚ) - 1 / 2 = number / 2 ^ exponent) ∧
      (number / 2 ^ exponent < mantissa + 1 / 2 ∨
        mantissa % 2 = 0 ∧ number / 2 ^ exponent = mantissa + 1 / 2) := by
  obtain ⟨hlower, hupper⟩ := h
  rw [Reach.closed_of_iff] at hlower hupper
  have habove : ((Reach.of mantissa exponent).above : ℚ) = 2 := by norm_num [Reach.of]
  rw [habove] at hupper
  constructor
  · rcases Reach.below_cases mantissa exponent with ⟨-, -, hbelow⟩ | ⟨-, hbelow⟩
    · rw [hbelow] at hlower
      left
      rcases hlower with h | ⟨-, h⟩ <;> push_cast at h <;> linarith
    · rw [hbelow] at hlower
      refine hlower.imp (fun h => ?_) (And.imp_right fun h => ?_) <;> push_cast at h <;> linarith
  · refine hupper.imp (fun h => ?_) (And.imp_right fun h => ?_) <;> linarith

theorem half_le (h : RoundsTo mantissa exponent number) :
    (mantissa : ℚ) - 1 / 2 ≤ number / 2 ^ exponent ∧
      number / 2 ^ exponent ≤ mantissa + 1 / 2 := by
  obtain ⟨hlower, hupper⟩ := h.half
  constructor
  · rcases hlower with h | ⟨-, h⟩ <;> linarith
  · rcases hupper with h | ⟨-, h⟩ <;> linarith

theorem pos (h : RoundsTo mantissa exponent number) (hcanonical : Canonical mantissa exponent) :
    0 < number := by
  have hmantissa : (1 : ℚ) ≤ mantissa := by exact_mod_cast hcanonical.pos
  have hunits : 0 < number / 2 ^ exponent := by linarith [h.half_le.1]
  have hunit : (0 : ℚ) < 2 ^ exponent := by positivity
  simpa [hunit.ne'] using mul_pos hunits hunit

/-- What rounds to a double is more than `10^-324`, as half of the least double is. -/
theorem gt_of_canonical (h : RoundsTo mantissa exponent number)
    (hcanonical : Canonical mantissa exponent) : (10 : ℚ) ^ (-324 : Int) < number := by
  have hunit : (0 : ℚ) < 2 ^ exponent := by positivity
  have hhalf : (1 : ℚ) / 2 ≤ mantissa - 1 / 2 := by
    have hone : (1 : ℚ) ≤ mantissa := by exact_mod_cast hcanonical.pos
    linarith
  calc (10 : ℚ) ^ (-324 : Int) < 2 ^ (-1074 : Int) / 2 := ten_zpow_lt_half_least
    _ = 1 / 2 * 2 ^ (-1074 : Int) := by ring
    _ ≤ (mantissa - 1 / 2) * 2 ^ exponent := by
        gcongr
        · norm_num
        · exact hcanonical.least_le
    _ ≤ number := (le_div_iff₀ hunit).mp h.half_le.1

/-- What rounds to a double is less than `10^309`, as the largest double is. -/
theorem lt_of_canonical (h : RoundsTo mantissa exponent number)
    (hcanonical : Canonical mantissa exponent) : number < (10 : ℚ) ^ (309 : Int) := by
  have hunit : (0 : ℚ) < 2 ^ exponent := by positivity
  have hhalf : (mantissa : ℚ) + 1 / 2 ≤ 2 ^ (53 : Int) := by
    have hone : (mantissa : ℚ) + 1 ≤ 2 ^ 53 := by exact_mod_cast hcanonical.lt
    have hcast : (2 : ℚ) ^ (53 : Int) = 2 ^ 53 := by norm_cast
    linarith
  calc number ≤ (mantissa + 1 / 2) * 2 ^ exponent := (div_le_iff₀ hunit).mp h.half_le.2
    _ ≤ 2 ^ (53 : Int) * 2 ^ (971 : Int) :=
        mul_le_mul hhalf (zpow_le_zpow_right₀ one_le_two hcanonical.le_largest) hunit.le
          (by positivity)
    _ = 2 ^ (1024 : Int) := by
        rw [← zpow_add₀ two_ne_zero, show (53 : Int) + 971 = 1024 from rfl]
    _ < 10 ^ (309 : Int) := two_zpow_lt_ten_zpow

end RoundsTo

/-! ## 4. Rounding to the double -/

theorem nearestBits_eq {num den : Nat} (hnum : num ≠ 0) (hden : den ≠ 0) :
    nearestBits num den =
      min ((max (ratioLog2 num den - 52) (-1074) + 1074).toNat * twoTo 52 +
        roundScaled num den (-max (ratioLog2 num den - 52) (-1074))) 0x7FF0000000000000 := by
  unfold nearestBits
  simp only [hnum, hden, or_self, if_false]

/-- In a unit of `2^unit` a ratio is a number of units, and that is rounded. -/
theorem roundScaled_eq {num den whole : Nat} {unit : Int} (hden : 0 < den)
    (hlow : (whole : ℚ) - 1 / 2 < num / den / 2 ^ unit ∨
      whole % 2 = 0 ∧ (whole : ℚ) - 1 / 2 = num / den / 2 ^ unit)
    (hhigh : (num : ℚ) / den / 2 ^ unit < whole + 1 / 2 ∨
      whole % 2 = 0 ∧ (num : ℚ) / den / 2 ^ unit = whole + 1 / 2) :
    roundScaled num den (-unit) = whole := by
  have hratio : ((num * twoTo (-unit).toNat : Nat) : ℚ) / ((den * twoTo (-(-unit)).toNat : Nat) : ℚ) =
      num / den / 2 ^ unit := by
    rw [scaled_ratio, zpow_neg, ← div_eq_mul_inv]
  rw [← hratio] at hlow hhigh
  exact roundHalfEven_eq (Nat.mul_pos hden (twoTo_pos _)) hlow hhigh

section

variable {mantissa num den : Nat} {exponent : Int}

/-- A ratio that fills the mantissa is counted in the units of the double, and so is one of the least
exponent. -/
theorem unit_of_roundsTo (hcanonical : Canonical mantissa exponent) (hnum : 0 < num) (hden : 0 < den)
    (h : RoundsTo mantissa exponent (num / den))
    (hfull : (2 : ℚ) ^ 52 ≤ num / den / 2 ^ exponent ∨ exponent = -1074) :
    max (ratioLog2 num den - 52) (-1074) = exponent := by
  have hunit : (0 : ℚ) < 2 ^ exponent := by positivity
  have hmantissa : (mantissa : ℚ) + 1 ≤ 2 ^ 53 := by exact_mod_cast hcanonical.lt
  obtain ⟨hlow, hhigh⟩ := ratioLog2_spec hnum hden
  have hupper : ratioLog2 num den < 53 + exponent := by
    rw [← zpow_lt_zpow_iff_right₀ (one_lt_two : (1 : ℚ) < 2), zpow_add₀ two_ne_zero]
    refine hlow.trans_lt ?_
    rw [← div_lt_iff₀ hunit]
    have hunits : (num : ℚ) / den / 2 ^ exponent < 2 ^ 53 := by linarith [h.half_le.2]
    exact_mod_cast hunits
  have hleast := hcanonical.least_le
  rcases hfull with hfull | hfull
  · have hlower : 52 + exponent < ratioLog2 num den + 1 := by
      rw [← zpow_lt_zpow_iff_right₀ (one_lt_two : (1 : ℚ) < 2), zpow_add₀ two_ne_zero]
      refine lt_of_le_of_lt ?_ hhigh
      rw [← le_div_iff₀ hunit]
      exact_mod_cast hfull
    omega
  · omega

/-- A ratio that falls short of the first mantissa that fills its bits is counted in units half as
large, and rounds up to twice that mantissa. -/
theorem carry_of_roundsTo (hcanonical : Canonical mantissa exponent) (hnum : 0 < num) (hden : 0 < den)
    (h : RoundsTo mantissa exponent (num / den))
    (hshort : (num : ℚ) / den / 2 ^ exponent < 2 ^ 52) (hexponent : -1074 < exponent) :
    mantissa = 2 ^ 52 ∧ max (ratioLog2 num den - 52) (-1074) = exponent - 1 ∧
      roundScaled num den (-(exponent - 1)) = 2 ^ 53 := by
  have hunit : (0 : ℚ) < 2 ^ exponent := by positivity
  have hmantissa : mantissa = 2 ^ 52 := by
    have hfull : 2 ^ 52 ≤ mantissa := hcanonical.full_or_least.resolve_right hexponent.ne'
    have hlt : (mantissa : ℚ) < 2 ^ 52 + 1 := by linarith [h.half_le.1]
    have hlt' : mantissa < 2 ^ 52 + 1 := by exact_mod_cast hlt
    omega
  have hquarter : (2 : ℚ) ^ 52 - 1 / 4 ≤ num / den / 2 ^ exponent := by
    have hbelow : (Reach.of mantissa exponent).below = 1 := by
      simp [Reach.of, hmantissa, hexponent, show twoTo 52 = 2 ^ 52 from rfl]
    have hlower := h.lower
    rw [hbelow, hmantissa] at hlower
    push_cast at hlower
    rcases hlower with hlower | ⟨-, hlower⟩ <;> linarith
  have hlog : ratioLog2 num den = 51 + exponent := by
    refine ratioLog2_eq hnum hden ?_ ?_
    · have hunits : (2 : ℚ) ^ 51 ≤ num / den / 2 ^ exponent := by linarith
      rw [zpow_add₀ two_ne_zero, ← le_div_iff₀ hunit]
      exact_mod_cast hunits
    · rw [show 51 + exponent + 1 = 52 + exponent by ring, zpow_add₀ two_ne_zero,
        ← div_lt_iff₀ hunit]
      exact_mod_cast hshort
  have hhalved : (num : ℚ) / den / 2 ^ (exponent - 1) = 2 * (num / den / 2 ^ exponent) := by
    rw [zpow_sub_one₀ two_ne_zero]
    field_simp
  refine ⟨hmantissa, by omega, roundScaled_eq hden ?_ ?_⟩
  · rw [hhalved]
    push_cast
    rcases hquarter.lt_or_eq with hlt | heq
    · left
      linarith
    · right
      exact ⟨by norm_num, by linarith⟩
  · rw [hhalved]
    push_cast
    left
    linarith

/-- **A ratio in the span of a double has the bits of that double for its nearest ones.** -/
theorem nearestBits_of_roundsTo (hcanonical : Canonical mantissa exponent) (hden : 0 < den)
    (h : RoundsTo mantissa exponent (num / den)) :
    nearestBits num den = (exponent + 1074).toNat * twoTo 52 + mantissa := by
  have hden' : (0 : ℚ) < den := by exact_mod_cast hden
  have hnum : 0 < num := by
    have hratio : (0 : ℚ) < num / den := h.pos hcanonical
    rw [div_pos_iff_of_pos_right hden'] at hratio
    exact_mod_cast hratio
  have hbits : (max (ratioLog2 num den - 52) (-1074) + 1074).toNat * twoTo 52 +
      roundScaled num den (-max (ratioLog2 num den - 52) (-1074)) =
      (exponent + 1074).toNat * twoTo 52 + mantissa := by
    by_cases hcarry : (num : ℚ) / den / 2 ^ exponent < 2 ^ 52 ∧ -1074 < exponent
    · obtain ⟨hmantissa, hunit, hround⟩ :=
        carry_of_roundsTo hcanonical hnum hden h hcarry.1 hcarry.2
      rw [hunit, hround, hmantissa, show twoTo 52 = 2 ^ 52 from rfl]
      omega
    · have hfull : (2 : ℚ) ^ 52 ≤ num / den / 2 ^ exponent ∨ exponent = -1074 := by
        have hleast := hcanonical.least_le
        rw [not_and_or, not_lt, not_lt] at hcarry
        exact hcarry.imp_right fun hle => by omega
      rw [unit_of_roundsTo hcanonical hnum hden h hfull, roundScaled_eq hden h.half.1 h.half.2]
  have hlargest := hcanonical.le_largest
  have hlt := hcanonical.lt
  rw [nearestBits_eq hnum.ne' hden.ne', hbits, show twoTo 52 = 2 ^ 52 from rfl]
  omega

end

end GlyphStack.Number
