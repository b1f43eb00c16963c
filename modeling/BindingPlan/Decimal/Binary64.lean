/-!
# Binary64 numbers

The non-negative binary64 numbers as bit patterns, with exact rational arithmetic in place of
machine floats. A pattern below `2 ^ 52` stands for itself, and any other for its low 52 bits with a
leading one and a scale, both counted in units of `2 ^ (-1074)`. Patterns are ordered as the numbers
that they stand for, and the next pattern is the next number; so rounding computes a scale and a
mantissa and adds them up.

Main definitions:

* `Binary64.ofRatio`: the number nearest to a ratio, a tie going to the even pattern.
* `Binary64.numerator`: the value of a finite number over `Binary64.unit`.
-/

namespace BindingPlan

/-- The quotient rounded to the nearest integer, a tie going to the even one. -/
def roundDiv (num den : Nat) : Nat :=
  let quotient := num / den
  let remainder := num % den
  if den < 2 * remainder ∨ (2 * remainder = den ∧ quotient % 2 = 1) then quotient + 1 else quotient

/-- A non-negative binary64 number, infinity included, by its bit pattern. -/
structure Binary64 where
  bits : Nat
  bits_le : bits ≤ 0x7ff0000000000000
deriving DecidableEq, Repr

namespace Binary64

/-- The number above all finite ones. -/
def infinity : Binary64 :=
  ⟨0x7ff0000000000000, Nat.le_refl _⟩

def zero : Binary64 :=
  ⟨0, Nat.zero_le _⟩

instance : Inhabited Binary64 := ⟨zero⟩

def isFinite (x : Binary64) : Bool :=
  decide (x.bits < 0x7ff0000000000000)

def isZero (x : Binary64) : Bool :=
  x.bits == 0

/-- The weight of the leading bit of a normal number, `2 ^ 52`. -/
def leadingBit : Nat := 0x10000000000000

/-- The significant bits, with the leading one of a normal number. -/
def mantissa (x : Binary64) : Nat :=
  if x.bits < leadingBit then x.bits else leadingBit + x.bits % leadingBit

/-- The power of two that the mantissa counts, above the least one. -/
def scale (x : Binary64) : Nat :=
  x.bits / leadingBit - 1

/-- One over the least positive number. -/
def unit : Nat := Nat.pow 2 1074

/-- A finite number is its numerator over `unit`. -/
def numerator (x : Binary64) : Nat :=
  x.mantissa * Nat.pow 2 x.scale

/-- The number nearest to `num / den`; infinity beyond the finite ones. -/
def ofRatio (num den : Nat) : Binary64 :=
  let scale := Nat.log2 (num * unit / den) - 52
  let bits := scale * leadingBit + roundDiv (num * unit) (den * Nat.pow 2 scale)
  if fits : bits ≤ 0x7ff0000000000000 then ⟨bits, fits⟩ else infinity

/-- The rounded product of two finite numbers. -/
def mul (x y : Binary64) : Binary64 :=
  ofRatio (x.numerator * y.numerator) (unit * unit)

/-- The rounded quotient of two finite numbers, the second one positive. -/
def div (x y : Binary64) : Binary64 :=
  ofRatio x.numerator y.numerator

end Binary64
end BindingPlan
