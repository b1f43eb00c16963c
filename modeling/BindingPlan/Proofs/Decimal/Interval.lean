import BindingPlan.Decimal.Shortest
import Mathlib.Data.Rat.Cast.Order
import Mathlib.Tactic.Linarith
import Mathlib.Tactic.Ring

/-!
# Rounding intervals

The rationals that read as one number form an interval around it. Where the interval of a number
ends, that of the next one begins; the common end belongs to the one with the even mantissa, and of
two neighbours just one has an even mantissa. So every rational reads as one number at most.

Main results:

* `Binary64.eq_of_covers`: numbers that cover a common rational are equal.
-/

namespace BindingPlan
namespace Binary64

variable {x y : Binary64} {q : ℚ}

/-- The lower end of the interval of a number, in quarters of the least positive number. -/
def lower (x : Binary64) : Nat :=
  x.lowerBound * 2 ^ x.scale

/-- The upper end of the interval of a number, in quarters of the least positive number. -/
def upper (x : Binary64) : Nat :=
  x.upperBound * 2 ^ x.scale

/-- The rational reads as the number: it lies between the ends of the interval, and is an end only
if the mantissa is even. -/
def Covers (x : Binary64) (q : ℚ) : Prop :=
  if x.mantissa % 2 = 0 then (x.lower : ℚ) ≤ q * (4 * unit) ∧ q * (4 * unit) ≤ x.upper
  else (x.lower : ℚ) < q * (4 * unit) ∧ q * (4 * unit) < x.upper

theorem covers_zero {x : Binary64} (h : x.isZero = true) : x.Covers 0 := by
  have hbits : x.bits = 0 := by
    simpa [isZero] using h
  have hmantissa : x.mantissa = 0 := by
    unfold mantissa
    rw [hbits]
    rfl
  have hlower : x.lower = 0 := by
    unfold lower lowerBound
    rw [hmantissa]
    split <;> exact Nat.zero_mul _
  unfold Covers
  rw [hmantissa, hlower, zero_mul, if_pos rfl]
  exact ⟨Nat.cast_zero.le, Nat.cast_nonneg x.upper⟩

/-! ## Ends -/

theorem lower_lt_upper (x : Binary64) : x.lower < x.upper := by
  have hbound : x.lowerBound < x.upperBound := by
    unfold lowerBound upperBound
    split <;> omega
  exact Nat.mul_lt_mul_of_pos_right hbound (Nat.two_pow_pos _)

/-- The mantissa has the parity of the pattern: the leading bit is even. -/
theorem mantissa_mod_two (x : Binary64) : x.mantissa % 2 = x.bits % 2 := by
  unfold mantissa leadingBit
  split <;> omega

/-- The interval of the next number starts where the interval of a number ends. -/
theorem upper_eq_lower_of_succ (h : y.bits = x.bits + 1) : x.upper = y.lower := by
  unfold upper lower upperBound lowerBound
  have hscale : x.scale = x.bits / leadingBit - 1 := rfl
  by_cases hcross : y.bits % leadingBit = 0 ∧ 2 * leadingBit ≤ y.bits
  · -- the scale changes, and the mantissa starts again at the leading bit
    obtain ⟨hmod, hle⟩ := hcross
    have hx : x.mantissa = 2 * leadingBit - 1 := by
      unfold mantissa leadingBit at *
      split <;> omega
    have hy : y.mantissa = leadingBit := by
      unfold mantissa leadingBit at *
      split <;> omega
    have hs : y.scale = x.scale + 1 := by
      unfold scale leadingBit at *
      omega
    have hpos : 1 ≤ leadingBit := by decide
    rw [hx, hy, hs, if_pos ⟨rfl, Nat.succ_pos _⟩, Nat.pow_succ', ← Nat.mul_assoc]
    congr 1
  · have hm : y.mantissa = x.mantissa + 1 := by
      unfold mantissa leadingBit at *
      split <;> split <;> omega
    have hs : y.scale = x.scale := by
      unfold scale leadingBit at *
      omega
    have hlead : ¬ (y.mantissa = leadingBit ∧ 0 < y.scale) := by
      unfold mantissa scale leadingBit at *
      split <;> omega
    rw [if_neg hlead, hm, hs]
    congr 1

/-- The interval of a smaller number ends in front of the interval of a greater one, or at its start
if the two are neighbours. -/
theorem upper_lt_lower_or_succ (h : x.bits < y.bits) :
    x.upper < y.lower ∨ (y.bits = x.bits + 1 ∧ x.upper = y.lower) := by
  obtain ⟨n, hn⟩ := Nat.exists_eq_add_of_lt h
  induction n generalizing y with
  | zero => exact .inr ⟨hn, upper_eq_lower_of_succ hn⟩
  | succ n ih =>
    let z : Binary64 := ⟨x.bits + n + 1, by have := y.bits_le; omega⟩
    have hz : x.upper ≤ z.lower := by
      rcases ih (y := z) (by show x.bits < x.bits + n + 1; omega) rfl with h | ⟨-, h⟩
      · exact Nat.le_of_lt h
      · exact Nat.le_of_eq h
    have hy : z.upper = y.lower := upper_eq_lower_of_succ (by rw [hn]; rfl)
    left
    calc x.upper ≤ z.lower := hz
      _ < z.upper := z.lower_lt_upper
      _ = y.lower := hy

/-! ## Intervals -/

theorem Covers.lower_le (h : x.Covers q) : (x.lower : ℚ) ≤ q * (4 * unit) := by
  unfold Covers at h
  split at h
  · exact h.1
  · exact le_of_lt h.1

theorem Covers.le_upper (h : x.Covers q) : q * (4 * unit) ≤ x.upper := by
  unfold Covers at h
  split at h
  · exact h.2
  · exact le_of_lt h.2

/-- Only a number with an even mantissa covers the ends of its interval. -/
theorem Covers.even (h : x.Covers q)
    (hq : (x.lower : ℚ) = q * (4 * unit) ∨ q * (4 * unit) = x.upper) : x.mantissa % 2 = 0 := by
  by_contra hodd
  unfold Covers at h
  rw [if_neg hodd] at h
  rcases hq with hq | hq
  · exact absurd hq (ne_of_lt h.1)
  · exact absurd hq (ne_of_lt h.2)

theorem not_covers_of_lt (hlt : x.bits < y.bits) (hx : x.Covers q) (hy : y.Covers q) : False := by
  have hqx := hx.le_upper
  have hqy := hy.lower_le
  rcases upper_lt_lower_or_succ hlt with h | ⟨hsucc, h⟩
  · have : (x.upper : ℚ) < y.lower := by exact_mod_cast h
    linarith
  · -- the rational is the common end
    have h : (x.upper : ℚ) = y.lower := by exact_mod_cast h
    have hevenx := hx.even (.inr (by linarith))
    have heveny := hy.even (.inl (by linarith))
    rw [mantissa_mod_two] at hevenx heveny
    omega

/-- A rational reads as one number only. -/
theorem eq_of_covers (hx : x.Covers q) (hy : y.Covers q) : x = y := by
  obtain ⟨m, hm⟩ := x
  obtain ⟨n, hn⟩ := y
  rcases Nat.lt_trichotomy m n with h | rfl | h
  · exact (not_covers_of_lt h hx hy).elim
  · rfl
  · exact (not_covers_of_lt h hy hx).elim

end Binary64
end BindingPlan
