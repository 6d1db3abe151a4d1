import GlyphStack.Proofs.Number.Packed

/-!
Whole numbers among the doubles. Below `2^53` in absolute value every whole number is a double, and
on these the floating-point operations are those of the integers: they compare, add, negate and
convert without a loss (`IsWhole`). A double that is rounded toward zero is one of them, or it is an
infinity or not a number, or it is so large that every whole number of this kind is on its near side
(`IsTruncated`).
-/

namespace GlyphStack.Number

open Float.Model Float.Model.UnpackedFloat

/-! ## 1. Whole numbers below `2^53` -/

/-- A double, as it is taken apart, is this whole number of fewer than 54 bits. -/
inductive IsWhole : UnpackedFloat → Int → Prop where
  | zero (s : Sign) : IsWhole (.zero s) 0
  | finite (s : Sign) {n : Nat} (hpos : 0 < n) (hlt : n < 2 ^ 53) :
      IsWhole (.finite s (n * 2 ^ (52 - n.log2)) (n.log2 - 52) (by positivity)) (s.apply n)

theorem log2_le_of_lt {n : Nat} (hlt : n < 2 ^ 53) : n.log2 ≤ 52 := by
  rcases Nat.eq_zero_or_pos n with rfl | hpos
  · decide
  · exact Nat.lt_succ_iff.mp ((Nat.log2_lt hpos.ne').mpr hlt)

/-- Shifted up, a whole number fills the mantissa. -/
theorem full_mantissa {n : Nat} (hpos : 0 < n) (hlt : n < 2 ^ 53) :
    2 ^ 52 ≤ n * 2 ^ (52 - n.log2) ∧ n * 2 ^ (52 - n.log2) < 2 ^ 53 := by
  have hlog := log2_le_of_lt hlt
  have hfull : (n * 2 ^ (52 - n.log2)).log2 = 52 := by
    rw [log2_mul_two_pow hpos]
    omega
  exact (Nat.log2_eq_iff (by positivity)).mp hfull

namespace IsWhole

variable {u v : UnpackedFloat} {m n : Int}

theorem natAbs_lt (h : IsWhole u n) : n.natAbs < 2 ^ 53 := by
  cases h with
  | zero => decide
  | finite s hpos hlt => cases s <;> simpa [Sign.apply] using hlt

/-- A whole number survives being packed. -/
theorem unpack_pack (h : IsWhole u n) : (Float.Model.pack u).unpack = u := by
  cases h with
  | zero s => exact unpack_pack_zero s
  | finite s hpos hlt =>
    obtain ⟨hfull, hfits⟩ := full_mantissa hpos hlt
    have hlog := log2_le_of_lt hlt
    exact unpack_pack_finite hfull hfits (by omega) (by omega)

theorem neg (h : IsWhole u n) : IsWhole u.neg (-n) := by
  cases h with
  | zero s => exact .zero (-s)
  | @finite s n hpos hlt =>
    have happly : -s.apply n = (-s).apply n := by
      cases s
      · exact neg_neg (n : Int)
      · rfl
    rw [happly]
    exact .finite (-s) hpos hlt

theorem normalize_pos {k : Nat} (hpos : 0 < k) (e : Int) :
    UnpackedFloat.normalize Format.binary64 k e .positive =
      UnpackedFloat.round Format.binary64 .positive k e := by
  have hcompare : compare (k : Int) 0 = .gt := compare_gt_iff_gt.mpr (by omega)
  simp only [UnpackedFloat.normalize, hcompare, Int.toNat_natCast]

theorem normalize_neg {k : Nat} (hpos : 0 < k) (e : Int) :
    UnpackedFloat.normalize Format.binary64 (-k) e .positive =
      UnpackedFloat.round Format.binary64 .negative k e := by
  have hcompare : compare (-k : Int) 0 = .lt := compare_lt_iff_lt.mpr (by omega)
  simp only [UnpackedFloat.normalize, hcompare, neg_neg, Int.toNat_natCast]

/-- Rounding does not change it, in whatever unit it is written. -/
theorem normalize {n : Int} (h : n.natAbs < 2 ^ 53) (d : Nat) :
    IsWhole (UnpackedFloat.normalize Format.binary64 (n * 2 ^ d) (-d) .positive) n := by
  have hn := Int.natAbs_eq n
  generalize n.natAbs = k at h hn
  rcases Nat.eq_zero_or_pos k with rfl | hpos
  · obtain rfl : n = 0 := by omega
    rw [zero_mul]
    exact .zero .positive
  · have hunits : 0 < k * 2 ^ d := by positivity
    rcases hn with rfl | rfl
    · have hscaled : (k : Int) * 2 ^ d = (k * 2 ^ d : Nat) := by push_cast; rfl
      rw [hscaled, normalize_pos hunits, round_whole _ hpos h]
      exact .finite .positive hpos h
    · have hscaled : -(k : Int) * 2 ^ d = -(k * 2 ^ d : Nat) := by push_cast; ring
      rw [hscaled, normalize_neg hunits, round_whole _ hpos h]
      exact .finite .negative hpos h

/-- The order of whole numbers is that of exponents first and mantissas next. -/
theorem compare_finite {a b : Nat} (ha : 0 < a) (hb : 0 < b) :
    ((compare ((a.log2 : Int) - 52) (b.log2 - 52)).then
      (compare (a * 2 ^ (52 - a.log2)) (b * 2 ^ (52 - b.log2)))) = compare (a : Int) b := by
  have lt_of_log {a b : Nat} (hb : 0 < b) (h : a.log2 < b.log2) : (a : Int) < b :=
    Int.ofNat_lt.mpr <| Nat.lt_log2_self.trans_le <|
      (Nat.pow_le_pow_right two_pos h).trans (Nat.log2_self_le hb.ne')
  rcases lt_trichotomy a.log2 b.log2 with hlt | heq | hgt
  · rw [compare_lt_iff_lt.mpr (show (a.log2 : Int) - 52 < b.log2 - 52 by omega),
      compare_lt_iff_lt.mpr (lt_of_log hb hlt)]
    rfl
  · rw [heq, compare_eq_iff_eq.mpr (rfl : (b.log2 : Int) - 52 = _)]
    have hunit : 0 < 2 ^ (52 - b.log2) := by positivity
    show compare _ _ = _
    rcases lt_trichotomy a b with hlt | rfl | hgt
    · rw [compare_lt_iff_lt.mpr (Int.ofNat_lt.mpr hlt),
        compare_lt_iff_lt.mpr (Nat.mul_lt_mul_of_pos_right hlt hunit)]
    · simp
    · rw [compare_gt_iff_gt.mpr (Int.ofNat_lt.mpr hgt),
        compare_gt_iff_gt.mpr (Nat.mul_lt_mul_of_pos_right hgt hunit)]
  · rw [compare_gt_iff_gt.mpr (show (b.log2 : Int) - 52 < a.log2 - 52 by omega),
      compare_gt_iff_gt.mpr (lt_of_log ha hgt)]
    rfl

/-- Whole numbers are ordered as the integers are. -/
theorem compare_eq (hu : IsWhole u m) (hv : IsWhole v n) : u.compare v = some (compare m n) := by
  cases hu with
  | zero s =>
    cases hv with
    | zero s' => rfl
    | @finite s' b hb =>
      cases s'
      · exact congrArg some (compare_gt_iff_gt.mpr (by simp [Sign.apply, hb])).symm
      · exact congrArg some (compare_lt_iff_lt.mpr (by simp [Sign.apply, hb])).symm
  | @finite s a ha =>
    cases hv with
    | zero s' =>
      cases s
      · exact congrArg some (compare_lt_iff_lt.mpr (by simp [Sign.apply, ha])).symm
      · exact congrArg some (compare_gt_iff_gt.mpr (by simp [Sign.apply, ha])).symm
    | @finite s' b hb =>
      cases s <;> cases s'
      · have hswap : compare (-(a : Int)) (-b) = (compare (a : Int) b).swap := by
          rw [← Std.OrientedOrd.eq_swap]
          simp [compare, compareOfLessAndEq, eq_comm]
        show some (Ordering.swap _) = some (compare (-(a : Int)) (-b))
        rw [compare_finite ha hb, hswap]
      · exact congrArg some (compare_lt_iff_lt.mpr (by simp only [Sign.apply]; omega)).symm
      · exact congrArg some (compare_gt_iff_gt.mpr (by simp only [Sign.apply]; omega)).symm
      · exact congrArg some (compare_finite ha hb)

theorem add_finite (s s' : Sign) {m m' : Nat} (e e' : Int) (hpos : 0 < m) (hpos' : 0 < m') :
    (UnpackedFloat.finite s m e hpos).add Format.binary64 (.finite s' m' e' hpos') =
      UnpackedFloat.normalize Format.binary64 (s.apply (decreaseExponent m e (min e e')).1 +
        s'.apply (decreaseExponent m' e' (min e e')).1) (min e e') .positive := rfl

/-- In a unit that is small enough a whole number is a multiple of the unit. -/
theorem apply_decreaseExponent {s : Sign} {n : Nat} (hlt : n < 2 ^ 53) {e : Int}
    (he : e ≤ (n.log2 : Int) - 52) :
    s.apply (decreaseExponent (n * 2 ^ (52 - n.log2)) (n.log2 - 52) e).1 =
      s.apply n * 2 ^ (-e).toNat := by
  have hlog := log2_le_of_lt hlt
  have hmantissa : n * 2 ^ (52 - n.log2) * 2 ^ ((n.log2 : Int) - 52 - e).toNat =
      n * 2 ^ (-e).toNat := by
    rw [mul_assoc, ← pow_add]
    congr 2
    omega
  simp only [decreaseExponent, Nat.shiftLeft_eq, hmantissa]
  cases s <;> simp [Sign.apply]

/-- Whole numbers whose sum is one are added without a loss. -/
theorem add (hu : IsWhole u m) (hv : IsWhole v n) (hsum : (m + n).natAbs < 2 ^ 53) :
    IsWhole (Float.Model.pack (u.add Format.binary64 v)).unpack (m + n) := by
  suffices IsWhole (u.add Format.binary64 v) (m + n) by
    rw [this.unpack_pack]
    exact this
  cases hu with
  | zero s =>
    rw [zero_add]
    cases hv with
    | zero s' =>
      cases s <;> cases s' <;> exact .zero _
    | finite s' hb hb' => exact .finite s' hb hb'
  | @finite s a ha ha' =>
    cases hv with
    | zero s' =>
      rw [add_zero]
      exact .finite s ha ha'
    | @finite s' b hb hb' =>
      have hlog := log2_le_of_lt ha'
      have hle := min_le_left ((a.log2 : Int) - 52) (b.log2 - 52)
      have hle' := min_le_right ((a.log2 : Int) - 52) (b.log2 - 52)
      have hunit : min ((a.log2 : Int) - 52) (b.log2 - 52) =
          -(-min ((a.log2 : Int) - 52) (b.log2 - 52)).toNat := by omega
      rw [add_finite, apply_decreaseExponent ha' hle, apply_decreaseExponent hb' hle', ← add_mul]
      generalize (-min ((a.log2 : Int) - 52) (b.log2 - 52)).toNat = d at hunit ⊢
      rw [hunit]
      exact normalize hsum d

/-- A whole number that is not negative is converted to that word. -/
theorem toNat_toUInt64 (h : IsWhole u n) (hn : 0 ≤ n) : u.toUInt64.toNat = n.toNat := by
  have hword : u.toInt 0 (UInt64.size - 1) = n := by
    cases h with
    | zero s => rfl
    | @finite s k hpos hlt =>
      have hlog := log2_le_of_lt hlt
      have hleft : ((k.log2 : Int) - 52 - 0).toNat = 0 := by omega
      have hright : (0 - ((k.log2 : Int) - 52 - 0)).toNat = 52 - k.log2 := by omega
      show s.apply (shiftToExponent (_ <<< _) _ .exact 0).1.mantissa = s.apply k
      simp only [shiftToExponent, hleft, Nat.shiftLeft_zero, Nat.cast_zero, hright,
        ExtendedMantissa.ofMantissaAndAccuracy, shiftRight_exact]
  have hfits : n.toNat < UInt64.size := by
    have hlt := h.natAbs_lt
    have hsize : UInt64.size = 2 ^ 64 := rfl
    omega
  show (UInt64.ofNatClamp (u.toInt 0 (UInt64.size - 1)).toNat).toNat = _
  rw [hword, UInt64.ofNatClamp, dif_pos hfits]
  rfl

end IsWhole

/-! ## 2. Counts and rounded numbers as doubles -/

/-- A count as a double. -/
def ofCount (n : Nat) : Float := (UInt64.ofNat n).toFloat

/-- A double without its fraction. -/
def integral (x : Float) : Float :=
  match parts x with
  | .finite negative mantissa exponent =>
      if 0 ≤ exponent then x
      else
        let size := ofCount (mantissa / twoTo (-exponent).toNat)
        if negative then -size else size
  | _ => x

theorem isWhole_ofCount {n : Nat} (hlt : n < 2 ^ 53) : IsWhole (unpacked (ofCount n)) n := by
  have hword : (UInt64.ofNat n).toNat = n := by
    rw [UInt64.toNat_ofNat']
    exact Nat.mod_eq_of_lt (by omega)
  have hwhole := IsWhole.normalize (n := n) (by omega) 0
  rw [pow_zero, mul_one, Nat.cast_zero, neg_zero] at hwhole
  show IsWhole (Float.Model.pack (UnpackedFloat.normalize _ (UInt64.ofNat n).toNat 0 _)).unpack n
  rw [hword, hwhole.unpack_pack]
  exact hwhole

theorem isWhole_neg {x : Float} {n : Int} (h : IsWhole (unpacked x) n) :
    IsWhole (unpacked (-x)) (-n) := by
  show IsWhole (Float.Model.pack (unpacked x).neg).unpack (-n)
  rw [h.neg.unpack_pack]
  exact h.neg

/-- A double that was rounded toward zero, as it is taken apart, and what it was rounded to. -/
inductive IsTruncated : UnpackedFloat → Truncated → Prop where
  | nan : IsTruncated .notANumber .nan
  | infinite (negative : Bool) : IsTruncated (.infinity (signOf negative)) (.infinite negative)
  | whole {u : UnpackedFloat} {n : Int} (h : IsWhole u n) : IsTruncated u (.whole n)
  /-- The number has more bits than the mantissa. -/
  | large (s : Sign) {mantissa : Nat} {exponent : Int} (hcanonical : Canonical mantissa exponent)
      (hexponent : 0 < exponent) : IsTruncated (.finite s mantissa exponent hcanonical.pos)
        (.whole (s.apply (mantissa * 2 ^ exponent.toNat)))

theorem apply_signOf (negative : Bool) (n : Int) :
    (signOf negative).apply n = if negative then -n else n := by
  cases negative <;> rfl

/-- An exponent that is not negative leaves no fraction. -/
theorem isTruncated_of_canonical (negative : Bool) {mantissa : Nat} {exponent : Int}
    (hcanonical : Canonical mantissa exponent) (hexponent : 0 ≤ exponent) :
    IsTruncated (.finite (signOf negative) mantissa exponent hcanonical.pos)
      (.whole ((signOf negative).apply (mantissa * 2 ^ exponent.toNat))) := by
  rcases hexponent.eq_or_lt with rfl | hpos
  · have hfull : 2 ^ 52 ≤ mantissa := hcanonical.full_or_least.resolve_right (by omega)
    have hlog : mantissa.log2 = 52 :=
      (Nat.log2_eq_iff hcanonical.pos.ne').mpr ⟨hfull, hcanonical.lt⟩
    have hwhole := IsWhole.finite (signOf negative) hcanonical.pos hcanonical.lt
    simp only [hlog, Nat.sub_self, pow_zero, mul_one] at hwhole
    simpa using IsTruncated.whole hwhole
  · exact .large _ hcanonical hpos

/-- Without its fraction a double is what it is rounded to toward zero. -/
theorem isTruncated_integral (x : Float) : IsTruncated (unpacked (integral x)) (truncate x) := by
  unfold integral truncate
  cases hparts : parts x with
  | nan =>
    simp only [unpacked_eq, hparts]
    exact .nan
  | infinite negative =>
    simp only [unpacked_eq, hparts]
    exact .infinite negative
  | finite negative mantissa exponent =>
    obtain ⟨-, -, hcanonical⟩ := canonical_of_parts hparts
    dsimp only
    by_cases hexponent : 0 ≤ exponent
    · have hcanonical : Canonical mantissa exponent := hcanonical.resolve_left (by omega)
      have hnone : (-exponent).toNat = 0 := by omega
      rw [if_pos hexponent, unpacked_eq, hparts, Parts.toUnpacked, dif_neg hcanonical.pos.ne']
      have htruncated := isTruncated_of_canonical negative hcanonical hexponent
      rw [apply_signOf] at htruncated
      simpa [twoTo, hnone] using htruncated
    · have hnone : exponent.toNat = 0 := by omega
      have hmantissa : mantissa < 2 ^ 53 := by
        rcases hcanonical with ⟨rfl, -⟩ | hcanonical
        · decide
        · exact hcanonical.lt
      have hsize := isWhole_ofCount ((Nat.div_le_self mantissa (twoTo (-exponent).toNat)).trans_lt
        hmantissa)
      rw [if_neg hexponent, hnone, show twoTo 0 = 1 from rfl, Nat.mul_one]
      cases negative
      · exact .whole hsize
      · exact .whole (isWhole_neg hsize)

theorem large_le {mantissa : Nat} {exponent : Int} (hcanonical : Canonical mantissa exponent)
    (hexponent : 0 < exponent) : (2 : Int) ^ 53 ≤ mantissa * 2 ^ exponent.toNat := by
  have hfull : 2 ^ 52 ≤ mantissa := hcanonical.full_or_least.resolve_right (by omega)
  have hpower : 2 ^ 1 ≤ 2 ^ exponent.toNat := Nat.pow_le_pow_right two_pos (by omega)
  exact_mod_cast Nat.mul_le_mul hfull hpower

theorem compare_exponents {b : Nat} {exponent : Int} (hlt : b < 2 ^ 53) (hexponent : 0 < exponent) :
    compare exponent ((b.log2 : Int) - 52) = .gt ∧ compare ((b.log2 : Int) - 52) exponent = .lt := by
  have hlog := log2_le_of_lt hlt
  have hbelow : (b.log2 : Int) - 52 < exponent := by omega
  exact ⟨compare_gt_iff_gt.mpr hbelow, compare_lt_iff_lt.mpr hbelow⟩

namespace IsTruncated

variable {u v : UnpackedFloat} {k n : Int}

/-- Rounded doubles compare with whole numbers as the integers do, however large they are. -/
theorem compare_whole (h : IsTruncated u (.whole n)) (hv : IsWhole v k) :
    u.compare v = some (compare n k) ∧ v.compare u = some (compare k n) := by
  cases h with
  | whole h => exact ⟨h.compare_eq hv, hv.compare_eq h⟩
  | @large s mantissa exponent hcanonical hexponent =>
    have hlarge := large_le hcanonical hexponent
    have hbound := hv.natAbs_lt
    cases s
    · have hlt : Sign.negative.apply (mantissa * 2 ^ exponent.toNat) < k := by
        simp only [Sign.apply]
        omega
      rw [compare_lt_iff_lt.mpr hlt, compare_gt_iff_gt.mpr hlt]
      cases hv with
      | zero => exact ⟨rfl, rfl⟩
      | finite s hb hb' =>
        obtain ⟨habove, hbelow⟩ := compare_exponents hb' hexponent
        cases s
        · simp [UnpackedFloat.compare, habove, hbelow]
        · exact ⟨rfl, rfl⟩
    · have hlt : k < Sign.positive.apply (mantissa * 2 ^ exponent.toNat) := by
        simp only [Sign.apply]
        omega
      rw [compare_lt_iff_lt.mpr hlt, compare_gt_iff_gt.mpr hlt]
      cases hv with
      | zero => exact ⟨rfl, rfl⟩
      | finite s hb hb' =>
        obtain ⟨habove, hbelow⟩ := compare_exponents hb' hexponent
        cases s
        · exact ⟨rfl, rfl⟩
        · simp [UnpackedFloat.compare, habove, hbelow]

/-- Of this size a rounded double is a whole number in its own right. -/
theorem isWhole (h : IsTruncated u (.whole n)) (hn : n.natAbs < 2 ^ 53) : IsWhole u n := by
  cases h with
  | whole h => exact h
  | @large s mantissa exponent hcanonical hexponent =>
    have hlarge := large_le hcanonical hexponent
    have hsize : (s.apply (mantissa * 2 ^ exponent.toNat)).natAbs =
        ((mantissa : Int) * 2 ^ exponent.toNat).natAbs := by
      cases s
      · exact Int.natAbs_neg _
      · rfl
    omega

theorem zero_compare_of_negative
    (h : u = .infinity .negative ∨ ∃ m e hpos, u = .finite .negative m e hpos) :
    (UnpackedFloat.zero .positive).compare u = some .gt := by
  rcases h with rfl | ⟨m, e, hpos, rfl⟩ <;> rfl

/-- A sum below zero does not come back to zero when it is rounded. -/
theorem zero_compare_normalize {sum e : Int} (hsum : sum < 0) (hleast : -1074 ≤ e) :
    (UnpackedFloat.zero .positive).compare
      (Float.Model.pack (UnpackedFloat.normalize Format.binary64 sum e .positive)).unpack =
      some .gt := by
  obtain ⟨k, rfl⟩ := Int.exists_eq_neg_ofNat hsum.le
  have hpos : 0 < k := by omega
  rw [IsWhole.normalize_neg hpos]
  exact zero_compare_of_negative (unpack_pack_round .negative hpos hleast)

/-- In a unit below its own a mantissa is its number scaled up. -/
theorem apply_decreaseExponent (s : Sign) (mantissa : Nat) {exponent e : Int}
    (hexponent : 0 < exponent) (he : e ≤ 0) :
    s.apply (decreaseExponent mantissa exponent e).1 =
      s.apply (mantissa * 2 ^ exponent.toNat) * 2 ^ (-e).toNat := by
  have hshift : (exponent - e).toNat = exponent.toNat + (-e).toNat := by omega
  simp only [decreaseExponent, Nat.shiftLeft_eq, hshift]
  cases s <;> simp only [Sign.apply] <;> push_cast <;> ring

/-- A number below all whole ones is below zero still when one of these is added. -/
theorem add_of_le (h : IsTruncated u (.whole n)) (hv : IsWhole v k) (hn : n ≤ -2 ^ 53) :
    (UnpackedFloat.zero .positive).compare (Float.Model.pack (u.add Format.binary64 v)).unpack =
      some .gt := by
  cases h with
  | whole h =>
    have hbound := h.natAbs_lt
    omega
  | @large s mantissa exponent hcanonical hexponent =>
    cases hv with
    | zero =>
      have hlarge := large_le hcanonical hexponent
      obtain rfl : s = .negative := by
        cases s
        · rfl
        · simp only [Sign.apply] at hn
          omega
      exact zero_compare_of_negative
        (unpack_pack_of_ne_zero .negative hcanonical.pos hcanonical.lt hcanonical.least_le)
    | @finite s' b hb hb' =>
      have hlog := log2_le_of_lt hb'
      have hunit : min exponent ((b.log2 : Int) - 52) = b.log2 - 52 := by omega
      have hbound := (IsWhole.finite s' hb hb').natAbs_lt
      rw [IsWhole.add_finite, hunit, IsWhole.apply_decreaseExponent hb' le_rfl,
        apply_decreaseExponent s mantissa hexponent (by omega), ← add_mul]
      refine zero_compare_normalize (Int.mul_neg_of_neg_of_pos ?_ (by positivity)) (by omega)
      omega

end IsTruncated

/-! ## 3. Comparisons and sums of doubles -/

section Doubles

variable {x y : Float} {k n : Int}

theorem lt_iff : x < y ↔ (unpacked x).compare (unpacked y) = some .lt := by
  show decide (UnpackedFloat.lt (unpacked x) (unpacked y) = true) = true ↔ _
  simp [UnpackedFloat.lt]

theorem le_iff : x ≤ y ↔ ((unpacked x).compare (unpacked y)).any (·.isLE) = true := by
  show decide (UnpackedFloat.le (unpacked x) (unpacked y) = true) = true ↔ _
  rw [decide_eq_true_iff]
  rfl

theorem beq_iff : (x == y) = true ↔ (unpacked x).compare (unpacked y) = some .eq := by
  show UnpackedFloat.beq (unpacked x) (unpacked y) = true ↔ _
  simp [UnpackedFloat.beq]

theorem isWhole_zero : IsWhole (unpacked zero) 0 :=
  .zero .positive

theorem isWhole_add (hx : IsWhole (unpacked x) n) (hy : IsWhole (unpacked y) k)
    (hsum : (n + k).natAbs < 2 ^ 53) : IsWhole (unpacked (x + y)) (n + k) :=
  hx.add hy hsum

namespace IsTruncated

theorem lt_iff_of_whole (hx : IsTruncated (unpacked x) (.whole n)) (hy : IsWhole (unpacked y) k) :
    (x < y ↔ n < k) ∧ (y < x ↔ k < n) := by
  obtain ⟨hcompare, hcompare'⟩ := hx.compare_whole hy
  rw [lt_iff, lt_iff, hcompare, hcompare', Option.some.injEq, Option.some.injEq,
    compare_lt_iff_lt, compare_lt_iff_lt]
  exact ⟨Iff.rfl, Iff.rfl⟩

theorem le_iff_of_whole (hx : IsTruncated (unpacked x) (.whole n)) (hy : IsWhole (unpacked y) k) :
    y ≤ x ↔ k ≤ n := by
  rw [le_iff, (hx.compare_whole hy).2, Option.any_some, Std.isLE_compare]

theorem beq_iff_of_whole (hx : IsTruncated (unpacked x) (.whole n)) (hy : IsWhole (unpacked y) k) :
    (x == y) = true ↔ n = k := by
  rw [beq_iff, (hx.compare_whole hy).1, Option.some.injEq, compare_eq_iff_eq]

/-- Not-a-number compares with nothing. -/
theorem compare_of_nan (hx : IsTruncated (unpacked x) .nan) (v : UnpackedFloat) :
    (unpacked x).compare v = none ∧ v.compare (unpacked x) = none := by
  generalize unpacked x = u at hx
  cases hx
  exact ⟨rfl, by cases v <;> rfl⟩

/-- An infinity is beyond all whole numbers. -/
theorem compare_of_infinite {negative : Bool} (hx : IsTruncated (unpacked x) (.infinite negative))
    (hy : IsWhole (unpacked y) k) :
    (unpacked x).compare (unpacked y) = some (if negative then .lt else .gt) ∧
      (unpacked y).compare (unpacked x) = some (if negative then .gt else .lt) := by
  generalize unpacked x = u at hx
  generalize unpacked y = v at hy
  cases hx
  cases hy with
  | zero s => cases negative <;> exact ⟨rfl, rfl⟩
  | finite s hpos hlt => cases negative <;> cases s <;> exact ⟨rfl, rfl⟩

/-- And stays where it is when one of these is added. -/
theorem add_of_infinite {negative : Bool} (hx : IsTruncated (unpacked x) (.infinite negative))
    (hy : IsWhole (unpacked y) k) : IsTruncated (unpacked (x + y)) (.infinite negative) := by
  show IsTruncated (Float.Model.pack ((unpacked x).add Format.binary64 (unpacked y))).unpack _
  generalize unpacked x = u at hx
  generalize unpacked y = v at hy
  cases hx
  have hsum : (UnpackedFloat.infinity (signOf negative)).add Format.binary64 v =
      .infinity (signOf negative) := by
    cases hy <;> rfl
  rw [hsum, unpack_pack_infinity]
  exact .infinite negative

end IsTruncated

end Doubles

end GlyphStack.Number
