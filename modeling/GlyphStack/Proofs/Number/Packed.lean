import Mathlib
import GlyphStack.Proofs.Number.Nearest

/-!
The floating-point operations take doubles apart and put them together in a way of their own. Section
1 says that they take them apart as `parts` does, so that what is known of a double by its bits is
known to the operations. Sections 2 and 3 are what a proof about a sum needs of the way back: which
numbers come back unchanged from rounding and packing, and that nothing else changes its side of
zero on it.

Facts about doubles by their bits, such as `Float.ofBits_toBits`, come with the library as a whole and
with no part of it, so this module and `Text` import all of it.
-/

namespace GlyphStack.Number

open Float.Model Float.Model.UnpackedFloat

/-- A double as the floating-point operations take it apart. -/
def unpacked (x : Float) : UnpackedFloat := x.toModel.unpack

/-- The sign that a set sign bit stands for, or a clear one. -/
def signOf (negative : Bool) : Sign := if negative then .negative else .positive

/-! ## 1. Both ways of taking a double apart -/

section Bits

variable (x : Float)

theorem toNat_unpackMantissa :
    (@unpackMantissa Format.binary64 x.toBits.toBitVec).toNat = magnitudeBits x % twoTo 52 := by
  have hbits : (@unpackMantissa Format.binary64 x.toBits.toBitVec).toNat =
      x.toBits.toNat % 2 ^ 52 := by
    simp [unpackMantissa, BitVec.extractLsb]
  simp only [hbits, magnitudeBits, show twoTo 63 = 2 ^ 63 from rfl, show twoTo 52 = 2 ^ 52 from rfl]
  omega

theorem toNat_unpackExponent :
    (@unpackExponent Format.binary64 x.toBits.toBitVec).toNat = magnitudeBits x / twoTo 52 := by
  have hbits : (@unpackExponent Format.binary64 x.toBits.toBitVec).toNat =
      x.toBits.toNat / 2 ^ 52 % 2 ^ 11 := by
    simp [unpackExponent, BitVec.extractLsb, Nat.shiftRight_eq_div_pow]
  simp only [hbits, magnitudeBits, show twoTo 63 = 2 ^ 63 from rfl, show twoTo 52 = 2 ^ 52 from rfl]
  omega

theorem ofBitVec_unpackSign :
    Sign.ofBitVec (@unpackSign Format.binary64 x.toBits.toBitVec) = signOf (isNegative x) := by
  have hlt : x.toBits.toNat < 2 ^ 64 := x.toBits.toNat_lt
  have hbits : (@unpackSign Format.binary64 x.toBits.toBitVec).toNat =
      x.toBits.toNat / 2 ^ 63 % 2 := by
    simp [unpackSign, BitVec.extractLsb, Nat.shiftRight_eq_div_pow]
  unfold Sign.ofBitVec signOf isNegative
  simp only [← BitVec.toNat_inj, hbits, show twoTo 63 = 2 ^ 63 from rfl, decide_eq_true_eq,
    BitVec.toNat_ofNat, Nat.zero_mod]
  split_ifs <;> first | rfl | omega

/-- The leading bit that normal doubles leave out. -/
theorem toNat_one_append (mantissa : BitVec 52) :
    (1#1 ++ mantissa).toNat = 2 ^ 52 + mantissa.toNat := by
  rw [BitVec.toNat_append, ← Nat.shiftLeft_add_eq_or_of_lt mantissa.isLt]
  rfl

/-- A double that was taken apart, as the floating-point operations have it. -/
def Parts.toUnpacked : Parts → UnpackedFloat
  | .nan => .notANumber
  | .infinite negative => .infinity (signOf negative)
  | .finite negative mantissa exponent =>
      if h : mantissa = 0 then .zero (signOf negative)
      else .finite (signOf negative) mantissa exponent (Nat.pos_of_ne_zero h)

/-- The operations take a double apart as `parts` does. -/
theorem unpacked_eq : unpacked x = (parts x).toUnpacked := by
  have hlast : @unpackExponent Format.binary64 x.toBits.toBitVec = -1#_ ↔
      magnitudeBits x / twoTo 52 = 2047 := by
    rw [← BitVec.toNat_inj, toNat_unpackExponent]
    simp
  have hfirst : @unpackExponent Format.binary64 x.toBits.toBitVec = 0#_ ↔
      magnitudeBits x / twoTo 52 = 0 := by
    rw [← BitVec.toNat_inj, toNat_unpackExponent]
    simp
  have hzero : @unpackMantissa Format.binary64 x.toBits.toBitVec = 0#_ ↔
      magnitudeBits x % twoTo 52 = 0 := by
    rw [← BitVec.toNat_inj, toNat_unpackMantissa]
    simp
  have hone : (1#1 ++ @unpackMantissa Format.binary64 x.toBits.toBitVec).toNat =
      twoTo 52 + magnitudeBits x % twoTo 52 := by
    rw [toNat_one_append, toNat_unpackMantissa]
    rfl
  show UnpackedFloat.unpack Format.binary64 x.toBits.toBitVec = _
  unfold UnpackedFloat.unpack parts
  simp only [ofBitVec_unpackSign, hlast, hfirst, hzero, hone, toNat_unpackExponent,
    toNat_unpackMantissa]
  split_ifs with hspecial hinfinite hleast hnone
  · rfl
  · rfl
  · simp [Parts.toUnpacked, hnone]
  · simp only [Parts.toUnpacked, hnone, ↓reduceDIte, hleast]
    rfl
  · rw [Parts.toUnpacked, dif_neg (Nat.add_pos_left (twoTo_pos 52) _).ne']
    rfl

end Bits

/-! ## 2. Putting a double together -/

theorem unpack_pack_zero (s : Sign) : (Float.Model.pack (.zero s)).unpack = .zero s := by
  cases s <;> rfl

theorem unpack_pack_infinity (s : Sign) : (Float.Model.pack (.infinity s)).unpack = .infinity s := by
  cases s <;> rfl

theorem ofBitVec_toBitVec (s : Sign) : Sign.ofBitVec s.toBitVec = s := by
  cases s <;> rfl

theorem unpackSign_packComponents {s : Sign} {exponent mantissa} :
    unpackSign (packComponents Format.binary64 s exponent mantissa) = s.toBitVec := by
  show (s.toBitVec ++ exponent ++ mantissa).extractLsb' 63 1 = _
  rw [BitVec.extractLsb'_append_eq_of_le (by decide),
    BitVec.extractLsb'_append_eq_of_le (by decide)]
  exact BitVec.extractLsb'_eq_self

/-- What is packed of a finite double, in the numbers of this format. -/
theorem pack_finite (s : Sign) {m : Nat} (e : Int) (hpos : 0 < m) :
    UnpackedFloat.pack Format.binary64 (.finite s m e hpos) =
      if 2 ^ 11 ≤ (e + 1075).toNat + 1 then packedInfinity Format.binary64 s
      else if m.log2 + 1 = 53 then packComponents Format.binary64 s
        (BitVec.ofNat 11 (e + 1075).toNat) (BitVec.ofNat 52 m)
      else packComponents Format.binary64 s 0#11 (BitVec.ofNat 52 m) := by
  have hbiased : (e + 1023 + 52).toNat = (e + 1075).toNat := by omega
  rw [← hbiased]
  rfl

/-- The exponent field of a normal double is none of the special ones. -/
theorem biased_field {e : Int} (hleast : -1074 ≤ e) (hrange : ¬ 2 ^ 11 ≤ (e + 1075).toNat + 1) :
    (BitVec.ofNat 11 (e + 1075).toNat).toNat = (e + 1075).toNat ∧
      BitVec.ofNat 11 (e + 1075).toNat ≠ -1#11 ∧ BitVec.ofNat 11 (e + 1075).toNat ≠ 0#11 := by
  have hfield : (BitVec.ofNat 11 (e + 1075).toNat).toNat = (e + 1075).toNat := by
    rw [BitVec.toNat_ofNat, Nat.mod_eq_of_lt (by omega)]
  refine ⟨hfield, ?_, ?_⟩ <;>
  · rw [ne_eq, ← BitVec.toNat_inj, hfield]
    simp
    omega

/-- A mantissa that fills its bits and an exponent in range come back as they are. -/
theorem unpack_pack_finite {s : Sign} {m : Nat} {e : Int} {hpos : 0 < m} (hfull : 2 ^ 52 ≤ m)
    (hlt : m < 2 ^ 53) (hleast : -1074 ≤ e) (hlargest : e ≤ 971) :
    (Float.Model.pack (.finite s m e hpos)).unpack = .finite s m e hpos := by
  have hlog : m.log2 = 52 := (Nat.log2_eq_iff hpos.ne').mpr ⟨hfull, hlt⟩
  have hrange : ¬ 2 ^ 11 ≤ (e + 1075).toNat + 1 := by omega
  obtain ⟨hfield, hlast, hfirst⟩ := biased_field hleast hrange
  have hmantissa : (1#1 ++ BitVec.ofNat 52 m).toNat = m := by
    rw [toNat_one_append, BitVec.toNat_ofNat]
    omega
  show UnpackedFloat.unpack Format.binary64 (UnpackedFloat.pack Format.binary64 _) = _
  rw [pack_finite, if_neg hrange, if_pos (congrArg (· + 1) hlog)]
  unfold UnpackedFloat.unpack
  simp only [unpackExponent_packComponents, unpackMantissa_packComponents,
    unpackSign_packComponents, ofBitVec_toBitVec]
  rw [if_neg hlast, if_neg hfirst, UnpackedFloat.finite.injEq, hfield]
  refine ⟨rfl, hmantissa, ?_⟩
  show ((e + 1075).toNat : Int) - (1023 + 52) = e
  omega

theorem exists_unpack_packComponents (s : Sign) {exponent : BitVec Format.binary64.exponentBits}
    {mantissa : BitVec Format.binary64.mantissaBitsWithoutImplicit} (hlast : exponent ≠ -1#_)
    (hzero : exponent ≠ 0#_ ∨ mantissa ≠ 0#_) : ∃ m e h, UnpackedFloat.unpack Format.binary64
      (packComponents Format.binary64 s exponent mantissa) = .finite s m e h := by
  unfold UnpackedFloat.unpack
  simp only [unpackExponent_packComponents, unpackMantissa_packComponents,
    unpackSign_packComponents, ofBitVec_toBitVec]
  rw [if_neg hlast]
  split_ifs with hfirst hnone
  · exact absurd hzero (by simp [hfirst, hnone])
  · exact ⟨mantissa.toNat, _, Nat.pos_of_ne_zero fun h => hnone (BitVec.eq_of_toNat_eq h), rfl⟩
  · exact ⟨_, _, (toNat_one_append mantissa).symm ▸ by positivity, rfl⟩

/-- What is not zero stays on its side of zero. -/
theorem unpack_pack_of_ne_zero (s : Sign) {m : Nat} {e : Int} (hpos : 0 < m) (hlt : m < 2 ^ 53)
    (hleast : -1074 ≤ e) :
    (Float.Model.pack (.finite s m e hpos)).unpack = .infinity s ∨
      ∃ m' e' h, (Float.Model.pack (.finite s m e hpos)).unpack = .finite s m' e' h := by
  have hpacked : (Float.Model.pack (.finite s m e hpos)).unpack = UnpackedFloat.unpack
      Format.binary64 (UnpackedFloat.pack Format.binary64 (.finite s m e hpos)) := rfl
  rw [hpacked, pack_finite]
  split_ifs with hrange hfull
  · exact .inl (unpack_pack_infinity s)
  · obtain ⟨-, hlast, hfirst⟩ := biased_field hleast hrange
    exact .inr (exists_unpack_packComponents s hlast (.inl hfirst))
  · have hlog : m.log2 < 53 := (Nat.log2_lt hpos.ne').mpr hlt
    have hshort : m < 2 ^ 52 := (Nat.log2_lt hpos.ne').mp (by omega)
    have hmantissa : BitVec.ofNat 52 m ≠ 0#52 := by
      rw [ne_eq, ← BitVec.toNat_inj, BitVec.toNat_ofNat, Nat.mod_eq_of_lt hshort]
      exact hpos.ne'
    exact .inr (exists_unpack_packComponents s (by decide) (.inr hmantissa))

/-! ## 3. Rounding -/

theorem targetExponent_eq (mantissa : Nat) (exponent : Int) :
    Format.binary64.targetExponent (totalExponent mantissa exponent) =
      max (mantissa.log2 + exponent - 52) (-1074) := by
  show max ((mantissa.log2 : Int) + 1 + exponent - 53) (3 - 2 ^ 10 - 53) = _
  omega

theorem shiftRight_mantissa (m : ExtendedMantissa) (k : Nat) :
    (m >>> k).mantissa = m.mantissa / 2 ^ k := by
  induction k with
  | zero => exact (Nat.div_one _).symm
  | succ k ih =>
    show (m >>> k).mantissa / 2 = _
    rw [ih, Nat.div_div_eq_div_mul, pow_succ]

/-- Where only zeros are shifted out, none is left behind. -/
theorem shiftRight_exact (m k : Nat) :
    (⟨m * 2 ^ k, false, false⟩ : ExtendedMantissa) >>> k = ⟨m, false, false⟩ := by
  induction k generalizing m with
  | zero => rw [pow_zero, mul_one]; rfl
  | succ k ih =>
    have hlast := ih (m * 2)
    rw [mul_assoc, ← pow_succ'] at hlast
    show ((⟨m * 2 ^ (k + 1), false, false⟩ : ExtendedMantissa) >>> k).shiftRightOne = _
    rw [hlast]
    simp [ExtendedMantissa.shiftRightOne]

theorem log2_mul_two_pow {m : Nat} (hpos : 0 < m) (k : Nat) : (m * 2 ^ k).log2 = m.log2 + k := by
  rw [Nat.log2_eq_iff (by positivity), pow_add, Nat.add_right_comm, pow_add]
  exact ⟨Nat.mul_le_mul_right _ (Nat.log2_self_le hpos.ne'),
    Nat.mul_lt_mul_of_pos_right Nat.lt_log2_self (by positivity)⟩

/-- A mantissa that is written out longer than it has to be is rounded to itself. -/
theorem roundWithAccuracy_exact (s : Sign) {m : Nat} {e : Int} (hpos : 0 < m)
    (hcanonical : max ((m.log2 : Int) + e - 52) (-1074) = e) (k : Nat) :
    roundWithAccuracy Format.binary64 s (m * 2 ^ k) (e - k) .exact = .finite s m e hpos := by
  have hfirst : shiftToTargetExponent Format.binary64 (m * 2 ^ k) (e - k) .exact =
      (⟨m, false, false⟩, e) := by
    have htarget : max (((m * 2 ^ k).log2 : Int) + (e - k) - 52) (-1074) = e := by
      rw [log2_mul_two_pow hpos]
      omega
    have hshift : (e - (e - k)).toNat = k := by omega
    simp only [shiftToTargetExponent, targetExponent_eq, htarget, shiftToExponent, hshift,
      ExtendedMantissa.ofMantissaAndAccuracy, shiftRight_exact, sub_add_cancel]
  have hsecond : shiftToTargetExponent Format.binary64 m e .exact = (⟨m, false, false⟩, e) := by
    have hshift : (e - e).toNat = 0 := by omega
    simp only [shiftToTargetExponent, targetExponent_eq, hcanonical, shiftToExponent, hshift,
      ExtendedMantissa.ofMantissaAndAccuracy, Nat.cast_zero, add_zero]
    rfl
  simp only [roundWithAccuracy, hfirst]
  simp only [ExtendedMantissa.roundedMantissa, ExtendedMantissa.accuracy,
    Accuracy.roundToNearestEven, hsecond]
  rw [dif_neg hpos.ne']

/-- A whole number of fewer than 54 bits is rounded to itself, in whatever unit it is written. -/
theorem round_whole (s : Sign) {n : Nat} (hpos : 0 < n) (hlt : n < 2 ^ 53) (d : Nat) :
    UnpackedFloat.round Format.binary64 s (n * 2 ^ d) (-d) =
      .finite s (n * 2 ^ (52 - n.log2)) (n.log2 - 52) (by positivity) := by
  have hlog : n.log2 < 53 := (Nat.log2_lt hpos.ne').mpr hlt
  have hlogFull : (n * 2 ^ (52 - n.log2)).log2 = 52 := by
    rw [log2_mul_two_pow hpos]
    omega
  have htarget : max (((n * 2 ^ d).log2 : Int) + -d - 52) (-1074) = n.log2 - 52 := by
    rw [log2_mul_two_pow hpos]
    omega
  have hmantissa : n * 2 ^ d * 2 ^ (-(d : Int) - (n.log2 - 52)).toNat =
      n * 2 ^ (52 - n.log2) * 2 ^ ((n.log2 : Int) - 52 + d).toNat := by
    rw [mul_assoc, mul_assoc, ← pow_add, ← pow_add]
    congr 2
    omega
  have hexponent : -(d : Int) - (-(d : Int) - (n.log2 - 52)).toNat =
      n.log2 - 52 - ((n.log2 : Int) - 52 + d).toNat := by omega
  simp only [UnpackedFloat.round, targetExponent_eq, htarget, decreaseExponent, Nat.shiftLeft_eq, hmantissa,
    hexponent]
  exact roundWithAccuracy_exact s (by positivity) (by rw [hlogFull]; omega) _

/-- Shifted to its target exponent a mantissa is not zero and fits. -/
theorem shiftToTargetExponent_bounds {m : Nat} {e : Int} {shifted : ExtendedMantissa × Int}
    (hpos : 0 < m) (hleast : -1074 ≤ e)
    (h : shiftToTargetExponent Format.binary64 m e .exact = shifted) :
    0 < shifted.1.mantissa ∧ shifted.1.mantissa < 2 ^ 53 ∧ -1074 ≤ shifted.2 := by
  have hshift : (max ((m.log2 : Int) + e - 52) (-1074) - e).toNat = m.log2 - 52 := by omega
  simp only [shiftToTargetExponent, targetExponent_eq, shiftToExponent, hshift,
    ExtendedMantissa.ofMantissaAndAccuracy] at h
  subst h
  simp only [shiftRight_mantissa]
  refine ⟨Nat.div_pos ?_ (by positivity), ?_, by omega⟩
  · exact (Nat.pow_le_pow_right two_pos (Nat.sub_le _ _)).trans (Nat.log2_self_le hpos.ne')
  · rw [Nat.div_lt_iff_lt_mul (by positivity), ← pow_add]
    exact Nat.lt_log2_self.trans_le (Nat.pow_le_pow_right two_pos (by omega))

theorem le_roundedMantissa (m : ExtendedMantissa) : m.mantissa ≤ m.roundedMantissa := by
  obtain ⟨m, roundBit, stickyBit⟩ := m
  cases roundBit <;> cases stickyBit <;>
    simp [ExtendedMantissa.roundedMantissa, ExtendedMantissa.accuracy,
      Accuracy.roundToNearestEven]

/-- What is not zero is not rounded to zero. -/
theorem exists_roundWithAccuracy_eq (s : Sign) {m : Nat} {e : Int} (hpos : 0 < m)
    (hleast : -1074 ≤ e) : ∃ m' e' h,
      roundWithAccuracy Format.binary64 s m e .exact = .finite s m' e' h ∧
        m' < 2 ^ 53 ∧ -1074 ≤ e' := by
  rcases hfirst : shiftToTargetExponent Format.binary64 m e .exact with ⟨first, e₁⟩
  have hbounds := shiftToTargetExponent_bounds hpos hleast hfirst
  have hrounded := hbounds.1.trans_le (le_roundedMantissa first)
  rcases hsecond : shiftToTargetExponent Format.binary64 first.roundedMantissa e₁ .exact with
    ⟨second, e₂⟩
  have hbounds' := shiftToTargetExponent_bounds hrounded hbounds.2.2 hsecond
  simp only [roundWithAccuracy, hfirst, hsecond]
  rw [dif_neg hbounds'.1.ne']
  exact ⟨second.mantissa, e₂, hbounds'.1, rfl, hbounds'.2⟩

theorem exists_round_eq (s : Sign) {m : Nat} {e : Int} (hpos : 0 < m) (hleast : -1074 ≤ e) :
    ∃ m' e' h, UnpackedFloat.round Format.binary64 s m e = .finite s m' e' h ∧
      m' < 2 ^ 53 ∧ -1074 ≤ e' := by
  simp only [UnpackedFloat.round, targetExponent_eq, decreaseExponent, Nat.shiftLeft_eq]
  exact exists_roundWithAccuracy_eq s (by positivity) (by omega)

/-- What is not zero is rounded to its own side of zero. -/
theorem unpack_pack_round (s : Sign) {m : Nat} {e : Int} (hpos : 0 < m) (hleast : -1074 ≤ e) :
    (Float.Model.pack (UnpackedFloat.round Format.binary64 s m e)).unpack = .infinity s ∨
      ∃ m' e' h,
        (Float.Model.pack (UnpackedFloat.round Format.binary64 s m e)).unpack = .finite s m' e' h := by
  obtain ⟨m', e', hpos', hround, hlt, hleast'⟩ := exists_round_eq s hpos hleast
  rw [hround]
  exact unpack_pack_of_ne_zero s hpos' hlt hleast'

end GlyphStack.Number
