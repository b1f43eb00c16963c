import BindingPlan.Proofs.Decimal.Interval
import Mathlib.Algebra.Order.Field.Power

/-!
# The shortest decimal reads back

A grid gives a decimal only if it lies in the rounding interval of the number. Seventeen digits are
enough: a number is at least `10 ^ 16` steps of the grid with seventeen digits and less than
`2 ^ 53` units of its mantissa, so a step is smaller than its rounding interval, and one of the two
grid points around the number lies in it.

Main results:

* `Binary64.covers_shortest`: the shortest decimal of a positive finite number reads back.
-/

namespace BindingPlan

/-- The rational that a decimal stands for. -/
def Decimal.value (d : Decimal) : ℚ :=
  d.digits * (10 : ℚ) ^ d.exponent

namespace Binary64

variable {x : Binary64} {tie : Tie} {exponent : Int} {point count : Nat} {d : Decimal}

/-! ## Grids -/

/-- A quarter of a unit of the mantissa, scaled for grids with the exponent. -/
def quarter (x : Binary64) (exponent : Int) : Nat :=
  Nat.pow 2 x.scale * Nat.pow 10 (-exponent).toNat

/-- The distance of two neighbours on grids with the exponent, in the same scale. -/
def gridStep (exponent : Int) : Nat :=
  4 * unit * Nat.pow 10 exponent.toNat

/-- Whether a point of a grid reads back as the number. -/
def readsBack (x : Binary64) (exponent : Int) (point : Nat) : Bool :=
  let low := x.lowerBound * x.quarter exponent
  let high := x.upperBound * x.quarter exponent
  if x.mantissa % 2 = 0 then
    decide (low ≤ point * gridStep exponent) && decide (point * gridStep exponent ≤ high)
  else decide (low < point * gridStep exponent) && decide (point * gridStep exponent < high)

/-- The grid point at or below the number. -/
def pointBelow (x : Binary64) (exponent : Int) : Nat :=
  4 * x.mantissa * x.quarter exponent / gridStep exponent

theorem unit_pos : 0 < unit := by
  decide +kernel

theorem gridStep_pos : 0 < gridStep exponent :=
  Nat.mul_pos (Nat.mul_pos (by decide) unit_pos) (Nat.pow_pos (by decide))

theorem quarter_pos : 0 < x.quarter exponent :=
  Nat.mul_pos (Nat.pow_pos (by decide)) (Nat.pow_pos (by decide))

/-- A non-negative power of ten over a negative one. -/
theorem zpow_mul_pow_toNat (exponent : Int) :
    (10 : ℚ) ^ exponent * (10 : ℚ) ^ (-exponent).toNat = (10 : ℚ) ^ exponent.toNat := by
  rw [← zpow_natCast, ← zpow_natCast, ← zpow_add₀ (by norm_num)]
  congr 1
  omega

theorem readsBack_eq_true :
    x.readsBack exponent point = true ↔ x.Covers (Decimal.value ⟨point, exponent⟩) := by
  have hscale : (0 : ℚ) < (10 : ℚ) ^ (-exponent).toNat := by positivity
  -- both sides of a comparison are scaled by the power of ten below the point
  have hpoint : Decimal.value ⟨point, exponent⟩ * (4 * unit) * (10 : ℚ) ^ (-exponent).toNat =
      ((point * gridStep exponent : ℕ) : ℚ) := by
    unfold Decimal.value gridStep
    rw [Nat.pow_eq]
    push_cast
    generalize (unit : ℚ) = least
    calc (point : ℚ) * 10 ^ exponent * (4 * least) * 10 ^ (-exponent).toNat
        = point * (4 * least) * (10 ^ exponent * 10 ^ (-exponent).toNat) := by ac_rfl
      _ = point * (4 * least * 10 ^ exponent.toNat) := by rw [zpow_mul_pow_toNat, mul_assoc]
  have hbound (bound : ℕ) : ((bound * x.quarter exponent : ℕ) : ℚ) =
      ((bound * 2 ^ x.scale : ℕ) : ℚ) * (10 : ℚ) ^ (-exponent).toNat := by
    unfold quarter
    rw [Nat.pow_eq, Nat.pow_eq]
    push_cast
    ring
  have hle (bound : ℕ) : bound * x.quarter exponent ≤ point * gridStep exponent ↔
      ((bound * 2 ^ x.scale : ℕ) : ℚ) ≤ Decimal.value ⟨point, exponent⟩ * (4 * unit) := by
    rw [← @Nat.cast_le ℚ, ← hpoint, hbound, mul_le_mul_iff_of_pos_right hscale]
  have hge (bound : ℕ) : point * gridStep exponent ≤ bound * x.quarter exponent ↔
      Decimal.value ⟨point, exponent⟩ * (4 * unit) ≤ ((bound * 2 ^ x.scale : ℕ) : ℚ) := by
    rw [← @Nat.cast_le ℚ, ← hpoint, hbound, mul_le_mul_iff_of_pos_right hscale]
  unfold readsBack Covers lower upper
  split
  · rw [Bool.and_eq_true, decide_eq_true_eq, decide_eq_true_eq, hle, hge]
  · rw [Bool.and_eq_true, decide_eq_true_eq, decide_eq_true_eq, ← not_le, ← not_le, hle, hge,
      not_le, not_le]

/-- The grid with some number of digits, by the two points around the number. -/
theorem onGrid?_eq :
    x.onGrid? tie count =
      let exponent := x.leadingExponent - (count - 1 : Nat)
      let value := 4 * x.mantissa * x.quarter exponent
      let below := x.pointBelow exponent
      let above := below + 1
      match x.readsBack exponent below, x.readsBack exponent above with
      | true, true =>
        let middle := (below + above) * gridStep exponent
        if middle < 2 * value ∨ (middle = 2 * value ∧ tie.takesUpper below) then
          some ⟨above, exponent⟩
        else some ⟨below, exponent⟩
      | true, false => some ⟨below, exponent⟩
      | false, true => some ⟨above, exponent⟩
      | false, false => none :=
  rfl

/-- A decimal of a grid reads back. -/
theorem covers_of_onGrid? (h : x.onGrid? tie count = some d) : x.Covers d.value := by
  rw [onGrid?_eq] at h
  dsimp only at h
  split at h
  · next hbelow habove =>
    split at h <;> cases h
    · exact readsBack_eq_true.mp habove
    · exact readsBack_eq_true.mp hbelow
  · next hbelow _ =>
    cases h
    exact readsBack_eq_true.mp hbelow
  · next _ habove =>
    cases h
    exact readsBack_eq_true.mp habove
  · cases h

/-- A grid on which one of the two points around the number reads back gives a decimal. -/
theorem exists_onGrid? {exponent : Int}
    (hexponent : exponent = x.leadingExponent - (count - 1 : Nat))
    (h : x.readsBack exponent (x.pointBelow exponent) = true ∨
      x.readsBack exponent (x.pointBelow exponent + 1) = true) :
    ∃ d, x.onGrid? tie count = some d := by
  rw [onGrid?_eq]
  dsimp only
  rw [← hexponent]
  split
  · split
    · exact ⟨_, rfl⟩
    · exact ⟨_, rfl⟩
  · exact ⟨_, rfl⟩
  · exact ⟨_, rfl⟩
  · next hb ha =>
    rcases h with h | h
    · exact absurd (h.symm.trans hb) (by decide)
    · exact absurd (h.symm.trans ha) (by decide)

/-! ## Seventeen digits -/

theorem lt_digitCount {n k : Nat} (h : 10 ^ k ≤ n) : k < digitCount n := by
  unfold digitCount
  rcases Nat.eq_zero_or_pos k with rfl | hk
  · exact Nat.length_toDigits_pos
  · rw [← Nat.not_le, Nat.length_toDigits_le_iff (by decide) hk]
    omega

theorem pow_digitCount_le {n : Nat} (h : 1 < digitCount n) : 10 ^ (digitCount n - 1) ≤ n := by
  unfold digitCount at *
  rw [← Nat.not_lt, ← Nat.length_toDigits_le_iff (by decide) (by omega)]
  omega

/-- The power of ten that the leading exponent is counted with gives every number seventeen digits.
It is stated with a name for its exponent, so that it is not written out. -/
theorem exists_shift (x : Binary64) : ∃ shift, shift = 342 ∧ 10 ^ 16 * unit ≤ Nat.pow 10 shift ∧
    x.leadingExponent = (digitCount (x.numerator * Nat.pow 10 shift / unit) : Int) - 343 :=
  ⟨342, rfl, by decide +kernel, rfl⟩

/-- The digits that lead to the leading exponent: at least seventeen, and the number is not below
the power of ten with one digit less. -/
theorem exists_size (hx : 0 < x.numerator) :
    ∃ size shift : Nat, shift = 342 ∧ 17 ≤ size ∧ x.leadingExponent = (size : Int) - 343 ∧
      10 ^ (size - 1) * unit ≤ x.numerator * 10 ^ shift := by
  obtain ⟨shift, hshift, hleast, hlead⟩ := x.exists_shift
  have hlong : 10 ^ 16 ≤ x.numerator * Nat.pow 10 shift / unit := by
    rw [Nat.le_div_iff_mul_le unit_pos]
    exact Nat.le_trans hleast (Nat.le_mul_of_pos_left _ hx)
  have hsize := lt_digitCount hlong
  have hle := pow_digitCount_le (Nat.lt_trans (by decide) hsize)
  exact ⟨_, shift, hshift, hsize, hlead, Nat.mul_le_of_le_div _ _ _ hle⟩

/-- A number is at least `10 ^ 16` steps of its grid with seventeen digits. -/
theorem pow_mul_gridStep_le (hx : 0 < x.numerator) :
    10 ^ 16 * gridStep (x.leadingExponent - 16) ≤
      4 * x.mantissa * x.quarter (x.leadingExponent - 16) := by
  obtain ⟨size, shift, hshift, hsize, hlead, hle⟩ := exists_size hx
  have hvalue : 4 * x.mantissa * x.quarter (x.leadingExponent - 16) =
      4 * (x.numerator * 10 ^ (-(x.leadingExponent - 16)).toNat) := by
    unfold quarter numerator
    rw [Nat.mul_assoc, Nat.mul_assoc]
    rfl
  rw [hvalue]
  unfold gridStep
  rw [Nat.pow_eq, hlead]
  generalize unit = least at *
  rcases Nat.le_total 359 size with h | h
  · -- the exponent of the grid is not negative
    have hpos : ((size : Int) - 343 - 16).toNat = size - 359 := by omega
    have hneg : (-((size : Int) - 343 - 16)).toNat = 0 := by omega
    have hsplit : size - 1 = 16 + (size - 359) + shift := by omega
    rw [hsplit, Nat.pow_add _ _ shift, Nat.mul_right_comm] at hle
    have hle := Nat.le_of_mul_le_mul_right hle (Nat.pow_pos (by decide))
    rw [hpos, hneg, Nat.pow_zero, Nat.mul_one]
    calc 10 ^ 16 * (4 * least * 10 ^ (size - 359))
        = 4 * (10 ^ (16 + (size - 359)) * least) := by ring
      _ ≤ 4 * x.numerator := Nat.mul_le_mul_left 4 hle
  · -- the exponent of the grid is not positive
    have hpos : ((size : Int) - 343 - 16).toNat = 0 := by omega
    have hneg : (-((size : Int) - 343 - 16)).toNat = 359 - size := by omega
    have hsplit : size - 1 = 16 + (size - 17) := by omega
    have htens : shift = 359 - size + (size - 17) := by omega
    rw [hsplit, htens, Nat.pow_add, Nat.pow_add _ (359 - size), ← Nat.mul_assoc,
      Nat.mul_right_comm] at hle
    have hle := Nat.le_of_mul_le_mul_right hle (Nat.pow_pos (by decide))
    rw [hpos, hneg, Nat.pow_zero, Nat.mul_one]
    calc 10 ^ 16 * (4 * least) = 4 * (10 ^ 16 * least) := by ring
      _ ≤ 4 * (x.numerator * 10 ^ (359 - size)) := Nat.mul_le_mul_left 4 hle

theorem mantissa_lt (x : Binary64) : x.mantissa < 2 * leadingBit := by
  unfold mantissa leadingBit
  split <;> omega

/-- A step of the grid with seventeen digits is smaller than the rounding interval. -/
theorem gridStep_lt (hx : 0 < x.numerator) :
    gridStep (x.leadingExponent - 16) + x.lowerBound * x.quarter (x.leadingExponent - 16) <
      x.upperBound * x.quarter (x.leadingExponent - 16) := by
  have hsteps := pow_mul_gridStep_le hx
  have hpos : 0 < x.quarter (x.leadingExponent - 16) := quarter_pos
  have hm := x.mantissa_lt
  have hm0 : 0 < x.mantissa := Nat.pos_of_mul_pos_right hx
  generalize x.quarter (x.leadingExponent - 16) = unit at *
  generalize gridStep (x.leadingExponent - 16) = step at *
  unfold lowerBound upperBound
  split
  · next hlead =>
    rw [hlead.1] at hsteps ⊢
    unfold leadingBit at hsteps ⊢
    omega
  · -- a unit of the mantissa is wider than a step
    have hstep : step < 4 * unit := by
      have hm := Nat.mul_le_mul_right unit (Nat.le_of_lt hm)
      unfold leadingBit at hm
      rw [Nat.mul_assoc] at hsteps
      omega
    have hwidth : (4 * x.mantissa + 2) * unit = (4 * x.mantissa - 2) * unit + 4 * unit := by
      rw [← Nat.add_mul]
      congr 1
      omega
    omega

/-- One of the two points around a number on its grid with seventeen digits reads back. -/
theorem readsBack_of_gridStep_lt {exponent : Int}
    (h : gridStep exponent + x.lowerBound * x.quarter exponent <
      x.upperBound * x.quarter exponent) :
    x.readsBack exponent (x.pointBelow exponent) = true ∨
      x.readsBack exponent (x.pointBelow exponent + 1) = true := by
  have hbelow := Nat.div_mul_le_self (4 * x.mantissa * x.quarter exponent) (gridStep exponent)
  have hstep : 0 < gridStep exponent := gridStep_pos
  have habove := Nat.lt_div_mul_add (a := 4 * x.mantissa * x.quarter exponent) hstep
  have hlow : x.lowerBound * x.quarter exponent ≤ 4 * x.mantissa * x.quarter exponent := by
    refine Nat.mul_le_mul_right _ ?_
    unfold lowerBound
    split <;> omega
  have hhigh : 4 * x.mantissa * x.quarter exponent < x.upperBound * x.quarter exponent := by
    refine Nat.mul_lt_mul_of_pos_right ?_ x.quarter_pos
    unfold upperBound
    omega
  unfold readsBack
  simp only [Nat.add_mul, Nat.one_mul]
  change pointBelow x exponent * _ ≤ _ at hbelow
  change _ < pointBelow x exponent * _ + _ at habove
  generalize x.pointBelow exponent * gridStep exponent = below at *
  rcases Nat.lt_or_ge (x.lowerBound * x.quarter exponent) below with hinside | houtside
  · left
    split
    · rw [Bool.and_eq_true, decide_eq_true_eq, decide_eq_true_eq]
      omega
    · rw [Bool.and_eq_true, decide_eq_true_eq, decide_eq_true_eq]
      omega
  · right
    split
    · rw [Bool.and_eq_true, decide_eq_true_eq, decide_eq_true_eq]
      omega
    · rw [Bool.and_eq_true, decide_eq_true_eq, decide_eq_true_eq]
      omega

/-- The shortest decimal of a positive number reads back. -/
theorem covers_shortest (hx : 0 < x.numerator) : x.Covers (x.shortest tie).value := by
  have hseventeen : ∃ d, x.onGrid? tie 17 = some d :=
    exists_onGrid? rfl (readsBack_of_gridStep_lt (gridStep_lt hx))
  unfold shortest
  split
  · next d hd =>
    obtain ⟨count, -, hcount⟩ := List.exists_of_findSome?_eq_some hd
    have hcovers := covers_of_onGrid? hcount
    split
    · next hten =>
      have hvalue : Decimal.value ⟨1, d.exponent + 1⟩ = d.value := by
        unfold Decimal.value
        rw [hten, zpow_add_one₀ (by norm_num)]
        push_cast
        ring
      rw [hvalue]
      exact hcovers
    · exact hcovers
  · next hnone =>
    obtain ⟨d, hd⟩ := hseventeen
    rw [List.findSome?_eq_none_iff] at hnone
    rw [hnone 17 (by decide)] at hd
    cases hd

end Binary64
end BindingPlan
