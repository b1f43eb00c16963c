import BindingPlan.Proofs.Decimal.Shortest
import Mathlib.Tactic.NormNum

/-!
# Decimals read as what covers them

The rounded quotient is at most half a unit away, and half a unit only if it is even. Rounding a
ratio to the mantissa of its scale therefore gives a number whose interval holds the ratio; and as
every rational reads as one number only, this is the number that the ratio reads as.

Main results:

* `Binary64.ofRatio_eq_of_covers`: a ratio reads as the finite number that covers it.
* `Binary64.toBinary64_eq_of_covers`: so does a decimal.
-/

namespace BindingPlan

/-- The rounded quotient is at most half a unit away, and less if it is odd. -/
theorem roundDiv_spec (num : Nat) {den : Nat} (hden : 0 < den) :
    2 * (roundDiv num den * den) ≤ 2 * num + den ∧ 2 * num ≤ 2 * (roundDiv num den * den) + den ∧
      (roundDiv num den % 2 = 1 → 2 * (roundDiv num den * den) < 2 * num + den ∧
        2 * num < 2 * (roundDiv num den * den) + den) := by
  have hsplit := Nat.div_add_mod' num den
  have hmod := Nat.mod_lt num hden
  unfold roundDiv
  dsimp only
  split
  · rw [Nat.add_mul, Nat.one_mul]
    omega
  · omega

theorem roundDiv_le_of_lt {num den bound : Nat} (hden : 0 < den) (h : num < bound * den) :
    roundDiv num den ≤ bound := by
  have hbelow := (roundDiv_spec num hden).1
  by_contra hgt
  have := Nat.mul_le_mul_right den (Nat.lt_of_not_le hgt)
  rw [Nat.succ_mul] at this
  omega

theorem le_roundDiv_of_le {num den bound : Nat} (hden : 0 < den) (h : bound * den ≤ num) :
    bound ≤ roundDiv num den := by
  have habove := (roundDiv_spec num hden).2.1
  by_contra hlow
  have := Nat.mul_le_mul_right den (Nat.lt_of_not_le hlow)
  rw [Nat.succ_mul] at this
  omega

namespace Binary64

variable {x y : Binary64} {num den scale mantissa : Nat}

/-- The bounds of an interval, compared with a ratio. -/
theorem covers_ratio_iff (hden : 0 < den) : x.Covers (num / den : ℚ) ↔
    if x.mantissa % 2 = 0 then
      x.lower * den ≤ 4 * (num * unit) ∧ 4 * (num * unit) ≤ x.upper * den
    else x.lower * den < 4 * (num * unit) ∧ 4 * (num * unit) < x.upper * den := by
  have hpos : (0 : ℚ) < den := by exact_mod_cast hden
  have hvalue : (num / den : ℚ) * (4 * unit) = ((4 * (num * unit) : ℕ) : ℚ) / den := by
    push_cast
    ring
  unfold Covers
  rw [hvalue, le_div_iff₀ hpos, div_le_iff₀ hpos, lt_div_iff₀ hpos, div_lt_iff₀ hpos]
  norm_cast

/-- The bits of a number are its scale and its mantissa, added up. -/
theorem mantissa_and_scale_of_bits (hbits : y.bits = scale * leadingBit + mantissa)
    (hlt : mantissa < 2 * leadingBit) (hnormal : 0 < scale → leadingBit ≤ mantissa) :
    y.mantissa = mantissa ∧ y.scale = scale := by
  unfold Binary64.mantissa Binary64.scale leadingBit at *
  constructor
  · split <;> omega
  · omega

/-- A number with a rounded mantissa covers what was rounded, also where rounding up leads to the
next scale. -/
theorem covers_of_rounded (hden : 0 < den) (hbits : y.bits = scale * leadingBit + mantissa)
    (hmantissa : mantissa = roundDiv (num * unit) (den * 2 ^ scale))
    (hle : mantissa ≤ 2 * leadingBit)
    (hnormal : 0 < scale → leadingBit ≤ mantissa ∧ leadingBit * (den * 2 ^ scale) ≤ num * unit) :
    y.Covers (num / den : ℚ) := by
  have hround := roundDiv_spec (num * unit) (Nat.mul_pos hden (Nat.two_pow_pos scale))
  rw [covers_ratio_iff hden]
  rw [← hmantissa] at hround
  generalize num * unit = value at *
  have hscaled (bound k : Nat) : bound * 2 ^ k * den = bound * (den * 2 ^ k) := by
    rw [Nat.mul_assoc, Nat.mul_comm den]
  unfold lower upper lowerBound upperBound
  rcases Nat.lt_or_eq_of_le hle with hlt | rfl
  · obtain ⟨hm, hs⟩ := mantissa_and_scale_of_bits hbits hlt fun hpos => (hnormal hpos).1
    rw [hm, hs, hscaled, hscaled]
    generalize den * 2 ^ scale = step at *
    split
    · split
      · next hlead =>
        obtain ⟨rfl, hpos⟩ := hlead
        have := (hnormal hpos).2
        rw [Nat.sub_mul, Nat.add_mul, Nat.mul_assoc]
        omega
      · rw [Nat.sub_mul, Nat.add_mul, Nat.mul_assoc]
        omega
    · next hodd =>
      split
      · next hlead => exact absurd (hlead.1 ▸ rfl) hodd
      · have hstep : step ≤ mantissa * step := Nat.le_mul_of_pos_left step (by omega)
        rw [Nat.sub_mul, Nat.add_mul, Nat.mul_assoc]
        omega
  · have hcarry : y.bits = (scale + 1) * leadingBit + leadingBit := by
      rw [hbits]
      ring
    obtain ⟨hm, hs⟩ := mantissa_and_scale_of_bits hcarry (by decide) fun _ => Nat.le_refl _
    have hnext : den * 2 ^ (scale + 1) = 2 * (den * 2 ^ scale) := by
      rw [Nat.pow_succ]
      ring
    rw [hm, hs, hscaled, hscaled, hnext, if_pos (show leadingBit % 2 = 0 from rfl),
      if_pos ⟨rfl, Nat.succ_pos _⟩]
    generalize den * 2 ^ scale = step at *
    unfold leadingBit at *
    omega

/-! ## Ratios -/

/-- The bits in front of the scale of a ratio are those of a mantissa. -/
theorem exists_scale (hden : 0 < den) (num : Nat) : ∃ scale, scale = Nat.log2 (num / den) - 52 ∧
    num < 2 * leadingBit * (den * 2 ^ scale) ∧
      (0 < scale → leadingBit * (den * 2 ^ scale) ≤ num) := by
  refine ⟨_, rfl, ?_, fun hpos => ?_⟩
  · have hlt := (Nat.div_lt_iff_lt_mul hden).mp (Nat.lt_log2_self (n := num / den))
    have hle : 2 ^ (Nat.log2 (num / den) + 1) ≤ 2 ^ (53 + (Nat.log2 (num / den) - 52)) :=
      Nat.pow_le_pow_right (by decide) (by omega)
    calc num < 2 ^ (Nat.log2 (num / den) + 1) * den := hlt
      _ ≤ 2 ^ (53 + (Nat.log2 (num / den) - 52)) * den := Nat.mul_le_mul_right den hle
      _ = 2 * leadingBit * (den * 2 ^ (Nat.log2 (num / den) - 52)) := by
        rw [Nat.pow_add, Nat.mul_assoc, Nat.mul_comm den]
        rfl
  · have hne : num / den ≠ 0 := by
      intro hzero
      rw [hzero] at hpos
      exact absurd hpos (by decide)
    have hle := Nat.mul_le_of_le_div _ _ _ (Nat.log2_self_le hne)
    have hsplit : Nat.log2 (num / den) = 52 + (Nat.log2 (num / den) - 52) := by omega
    calc leadingBit * (den * 2 ^ (Nat.log2 (num / den) - 52))
        = 2 ^ (52 + (Nat.log2 (num / den) - 52)) * den := by
          rw [Nat.pow_add, Nat.mul_assoc, Nat.mul_comm den]
          rfl
      _ = 2 ^ Nat.log2 (num / den) * den := by rw [← hsplit]
      _ ≤ num := hle

theorem scale_infinity : infinity.scale = 2046 := by
  decide

/-- Where infinity starts; the power is not written out. -/
theorem lower_infinity : infinity.lower = (4 * leadingBit - 1) * 2 ^ infinity.scale := by
  have hmantissa : infinity.mantissa = leadingBit := by decide
  have hscale : 0 < infinity.scale := by decide
  unfold lower lowerBound
  rw [hmantissa, if_pos ⟨rfl, hscale⟩]

/-- Infinity starts in front of every value of its scale or beyond. -/
theorem lower_infinity_mul_lt {value : Nat} (hden : 0 < den) (hlarge : infinity.scale ≤ scale)
    (h : leadingBit * (den * 2 ^ scale) ≤ value) : infinity.lower * den < 4 * value := by
  have hpow : 2 ^ infinity.scale ≤ 2 ^ scale := Nat.pow_le_pow_right (by decide) hlarge
  have hpos : 0 < den * 2 ^ infinity.scale := Nat.mul_pos hden (Nat.two_pow_pos _)
  have hlower : infinity.lower * den = (4 * leadingBit - 1) * (den * 2 ^ infinity.scale) := by
    rw [lower_infinity, Nat.mul_assoc, Nat.mul_comm den]
  have hle : leadingBit * (den * 2 ^ infinity.scale) ≤ value :=
    Nat.le_trans (Nat.mul_le_mul_left _ (Nat.mul_le_mul_left _ hpow)) h
  rw [hlower]
  generalize den * 2 ^ infinity.scale = least at *
  unfold leadingBit at *
  omega

/-- Everything below infinity ends in front of its interval. -/
theorem upper_le_of_isFinite (hx : x.isFinite = true) : x.upper ≤ infinity.lower := by
  have hlt : x.bits < infinity.bits := of_decide_eq_true hx
  rcases upper_lt_lower_or_succ hlt with h | ⟨-, h⟩
  · exact Nat.le_of_lt h
  · exact Nat.le_of_eq h

/-- What a finite number covers is not beyond the start of infinity. -/
theorem le_lower_infinity (hx : x.isFinite = true) (hden : 0 < den)
    (h : x.Covers (num / den : ℚ)) : 4 * (num * unit) ≤ infinity.lower * den := by
  rw [covers_ratio_iff hden] at h
  have hle : 4 * (num * unit) ≤ x.upper * den := by
    split at h
    · exact h.2
    · exact Nat.le_of_lt h.2
  exact Nat.le_trans hle (Nat.mul_le_mul_right den (upper_le_of_isFinite hx))

/-- A ratio reads as the finite number that covers it. -/
theorem ofRatio_eq_of_covers (hx : x.isFinite = true) (hden : 0 < den)
    (h : x.Covers (num / den : ℚ)) : ofRatio num den = x := by
  obtain ⟨scale, hscale, hlt, hnormal⟩ := exists_scale hden (num * unit)
  have hstep : 0 < den * 2 ^ scale := Nat.mul_pos hden (Nat.two_pow_pos scale)
  have hmantissa : roundDiv (num * unit) (den * 2 ^ scale) ≤ 2 * leadingBit :=
    roundDiv_le_of_lt hstep hlt
  have hunfold : ofRatio num den =
      if fits : scale * leadingBit + roundDiv (num * unit) (den * 2 ^ scale) ≤ 0x7ff0000000000000
      then ⟨_, fits⟩ else infinity := by
    rw [hscale]
    rfl
  rw [hunfold]
  generalize hround : roundDiv (num * unit) (den * 2 ^ scale) = mantissa at *
  split
  · refine eq_of_covers (covers_of_rounded hden rfl hround.symm hmantissa fun hpos => ?_) h
    exact ⟨hround ▸ le_roundDiv_of_le hstep (hnormal hpos), hnormal hpos⟩
  · next hover =>
    -- a ratio beyond all patterns is beyond the interval of the last finite number
    have hlarge : infinity.scale ≤ scale := by
      rw [scale_infinity]
      unfold leadingBit at *
      omega
    have hvalue := hnormal (Nat.lt_of_lt_of_le (by decide) hlarge)
    have hle := le_lower_infinity hx hden h
    exact absurd (lower_infinity_mul_lt hden hlarge hvalue) (Nat.not_lt_of_le hle)

/-! ## Decimals -/

theorem ten_zpow_eq (exponent : Int) :
    (10 : ℚ) ^ exponent = (10 : ℚ) ^ exponent.toNat / (10 : ℚ) ^ (-exponent).toNat := by
  rw [eq_div_iff (by positivity), zpow_mul_pow_toNat]

/-- A decimal is at least the power of ten of its first digit. -/
theorem zpow_le_value {d : Decimal} (h : d.digits ≠ 0) :
    (10 : ℚ) ^ (digitCount d.digits + d.exponent - 1) ≤ d.value := by
  have hcount : 0 < digitCount d.digits := Nat.length_toDigits_pos
  have hdigits : 10 ^ (digitCount d.digits - 1) ≤ d.digits := by
    rcases Nat.lt_or_ge 1 (digitCount d.digits) with hlong | hone
    · exact pow_digitCount_le hlong
    · rw [Nat.sub_eq_zero_of_le hone]
      exact Nat.pos_of_ne_zero h
  have hsplit : (digitCount d.digits : Int) + d.exponent - 1 =
      (digitCount d.digits - 1 : Nat) + d.exponent := by omega
  rw [hsplit, zpow_add₀ (by norm_num), zpow_natCast]
  exact mul_le_mul_of_nonneg_right (by exact_mod_cast hdigits) (by positivity)

/-- A decimal is below the power of ten above its first digit. -/
theorem value_lt_zpow (d : Decimal) : d.value < (10 : ℚ) ^ (digitCount d.digits + d.exponent) := by
  have hdigits : d.digits < 10 ^ digitCount d.digits :=
    Nat.lt_of_not_le fun h => Nat.lt_irrefl _ (lt_digitCount h)
  rw [zpow_add₀ (by norm_num), zpow_natCast]
  exact mul_lt_mul_of_pos_right (by exact_mod_cast hdigits) (by positivity)

theorem lower_infinity_lt : infinity.lower < 10 ^ 310 * (4 * unit) := by
  decide +kernel

/-- A finite number covers nothing as large as `10 ^ 310`. -/
theorem Covers.lt_of_isFinite {q : ℚ} (hx : x.isFinite = true) (h : x.Covers q) :
    q < (10 : ℚ) ^ 310 := by
  have hunit : (0 : ℚ) < 4 * unit := by exact_mod_cast Nat.mul_pos (by decide) unit_pos
  have hupper : (x.upper : ℚ) ≤ infinity.lower := by exact_mod_cast upper_le_of_isFinite hx
  have hlower : (infinity.lower : ℚ) < 10 ^ 310 * (4 * unit) := by exact_mod_cast lower_infinity_lt
  exact lt_of_mul_lt_mul_right ((h.le_upper.trans hupper).trans_lt hlower) hunit.le

theorem unit_le : 4 * unit ≤ 2 * 10 ^ 331 := by
  decide +kernel

/-- Zero covers everything up to `10 ^ (-331)`. -/
theorem covers_of_le {q : ℚ} (hpos : 0 ≤ q) (h : q ≤ (10 : ℚ) ^ (-331 : Int)) : zero.Covers q := by
  have hunit : (4 * unit : ℚ) ≤ 2 * 10 ^ 331 := by exact_mod_cast unit_le
  have hends : zero.mantissa % 2 = 0 ∧ zero.lower = 0 ∧ zero.upper = 2 := by decide
  have htens : (10 : ℚ) ^ (-331 : Int) * (10 : ℚ) ^ 331 = 1 := by
    rw [zpow_neg]
    exact inv_mul_cancel₀ (by positivity)
  have hleast : (0 : ℚ) ≤ unit := Nat.cast_nonneg unit
  unfold Covers
  rw [if_pos hends.1, hends.2.1, hends.2.2]
  generalize (unit : ℚ) = least at *
  refine ⟨by positivity, ?_⟩
  calc q * (4 * least) ≤ 10 ^ (-331 : Int) * (2 * 10 ^ 331) :=
        mul_le_mul h hunit (by positivity) (by positivity)
    _ = 2 * (10 ^ (-331 : Int) * 10 ^ 331) := mul_left_comm _ _ _
    _ = (2 : ℕ) := by rw [htens, mul_one, Nat.cast_ofNat]

/-- A decimal reads as the finite number that covers it. -/
theorem toBinary64_eq_of_covers {d : Decimal} (hx : x.isFinite = true) (h : x.Covers d.value) :
    d.toBinary64 = x := by
  unfold Decimal.toBinary64
  dsimp only
  split
  · next hzero =>
    have hvalue : d.value = 0 := by
      unfold Decimal.value
      rw [hzero, Nat.cast_zero, zero_mul]
    rw [hvalue] at h
    exact eq_of_covers (covers_zero rfl) h
  · next hne =>
    split
    · next hlarge =>
      have hle : (10 : ℚ) ^ (310 : Int) ≤ (10 : ℚ) ^ (digitCount d.digits + d.exponent - 1) :=
        zpow_le_zpow_right₀ (by norm_num) (by omega)
      rw [zpow_ofNat] at hle
      exact absurd ((hle.trans (zpow_le_value hne)).trans_lt (h.lt_of_isFinite hx)) (lt_irrefl _)
    · split
      · next hsmall =>
        have hle : (10 : ℚ) ^ (digitCount d.digits + d.exponent) ≤ (10 : ℚ) ^ (-331 : Int) :=
          zpow_le_zpow_right₀ (by norm_num) (by omega)
        have hpos : 0 ≤ d.value := by
          unfold Decimal.value
          positivity
        exact eq_of_covers (covers_of_le hpos ((value_lt_zpow d).le.trans hle)) h
      · refine ofRatio_eq_of_covers hx (Nat.pow_pos (by decide)) ?_
        have hvalue : d.value = ((d.digits * Nat.pow 10 d.exponent.toNat : ℕ) : ℚ) /
            ((Nat.pow 10 (-d.exponent).toNat : ℕ) : ℚ) := by
          unfold Decimal.value
          rw [ten_zpow_eq, Nat.pow_eq, Nat.pow_eq]
          push_cast
          rw [mul_div_assoc]
        rwa [← hvalue]

end Binary64
end BindingPlan
