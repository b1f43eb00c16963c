import BindingPlan.Decimal.Binary64

/-!
# Decimals and binary64 numbers

A decimal is read as the nearest binary64 number, and a number is written with the fewest digits
that read back as it.

The decimals of a given number of digits form a grid. If some point of the grid reads back as the
number, then one of the number's two neighbours on the grid does; of two such neighbours the nearer
is taken, and a rule decides if they are equally near. The first grid with a point wins.

Main definitions:

* `Decimal.toBinary64`: the number that a decimal reads as.
* `Binary64.shortest`: the shortest decimal that reads back.
-/

namespace BindingPlan

/-- The decimal `digits * 10 ^ exponent`. -/
structure Decimal where
  digits : Nat
  exponent : Int
deriving DecidableEq, Repr, Inhabited

/-- Number of decimal digits. -/
def digitCount (n : Nat) : Nat :=
  (Nat.toDigits 10 n).length

/-- The binary64 number nearest to a decimal. With `size` digits before the point a decimal is at
least `10 ^ (size - 1)` and below `10 ^ size`, so the two outer cases are beyond the finite numbers
and below half of the least positive one. -/
def Decimal.toBinary64 (d : Decimal) : Binary64 :=
  let size := digitCount d.digits + d.exponent
  if d.digits = 0 then .zero
  else if 310 < size then .infinity
  else if size < -330 then .zero
  else .ofRatio (d.digits * Nat.pow 10 d.exponent.toNat) (Nat.pow 10 (-d.exponent).toNat)

/-- Which one of two neighbours on a grid is taken if both are equally near. -/
inductive Tie where
  | upper
  /-- The one with the even last digit. -/
  | even
deriving DecidableEq, Repr

/-- Whether the neighbour above is taken, given the digits of the one below. -/
def Tie.takesUpper (tie : Tie) (below : Nat) : Bool :=
  match tie with
  | .upper => true
  | .even => below % 2 == 1

namespace Binary64

/-- The exponent of the leading decimal digit of a positive number. -/
def leadingExponent (x : Binary64) : Int :=
  digitCount (x.numerator * Nat.pow 10 342 / unit) - 343

/-- The decimals that read as a number lie within a quarter or half unit of its mantissa; bounds are
counted in quarters. The distance to the number below is halved where the scale changes. -/
def lowerBound (x : Binary64) : Nat :=
  if x.mantissa = leadingBit ∧ 0 < x.scale then 4 * x.mantissa - 1 else 4 * x.mantissa - 2

def upperBound (x : Binary64) : Nat :=
  4 * x.mantissa + 2

/-- The neighbour on the grid of decimals with `count` digits that reads back as `x`, the nearer one
if both do. -/
def onGrid? (tie : Tie) (x : Binary64) (count : Nat) : Option Decimal :=
  let exponent := x.leadingExponent - (count - 1 : Nat)
  -- a grid point `c` is compared with `q` quarters of the mantissa as `c * step` with `q * quarter`
  let quarter := Nat.pow 2 x.scale * Nat.pow 10 (-exponent).toNat
  let step := 4 * unit * Nat.pow 10 exponent.toNat
  let value := 4 * x.mantissa * quarter
  let readsBack (point : Nat) : Bool :=
    let low := x.lowerBound * quarter
    let high := x.upperBound * quarter
    if x.mantissa % 2 = 0 then decide (low ≤ point * step) && decide (point * step ≤ high)
    else decide (low < point * step) && decide (point * step < high)
  let below := value / step
  let above := below + 1
  match readsBack below, readsBack above with
  | true, true =>
    let middle := (below + above) * step
    if middle < 2 * value ∨ (middle = 2 * value ∧ tie.takesUpper below) then some ⟨above, exponent⟩
    else some ⟨below, exponent⟩
  | true, false => some ⟨below, exponent⟩
  | false, true => some ⟨above, exponent⟩
  | false, false => none

/-- Seventeen digits always read back. -/
def significantDigits : List Nat :=
  [1, 2, 3, 4, 5, 6, 7, 8, 9, 10, 11, 12, 13, 14, 15, 16, 17]

/-- The shortest decimal that reads back as a positive finite number. A one-digit grid ends in ten,
which is one digit of the next grid. -/
def shortest (tie : Tie) (x : Binary64) : Decimal :=
  match significantDigits.findSome? (x.onGrid? tie) with
  | some d => if d.digits = 10 then ⟨1, d.exponent + 1⟩ else d
  | none => ⟨0, 0⟩

end Binary64
end BindingPlan
