import BindingPlan.Decimal.Shortest

/-!
# Written numbers

Three texts of a number, all with the shortest digits that read back. The plain text never has an
exponent and drops the point of a whole number. The other two always have a point or an exponent,
and differ in where the exponent begins, in how it is written and in how a tie between two shortest
decimals is broken: `NumberStyle` holds these decisions.

Main definitions:

* `Binary64.plainText`, `Binary64.styledText`.
* `NumberStyle.literal`, `NumberStyle.document`.
-/

namespace BindingPlan
namespace Decimal

/-- The digits before and after the point. -/
def parts (d : Decimal) : List Char × List Char :=
  let digits := Nat.toDigits 10 d.digits
  let shift := (-d.exponent).toNat
  if 0 ≤ d.exponent then (digits ++ List.replicate d.exponent.toNat '0', [])
  else if shift < digits.length then
    (digits.take (digits.length - shift), digits.drop (digits.length - shift))
  else (['0'], List.replicate (shift - digits.length) '0' ++ digits)

/-- All digits, and a point only before a fraction. -/
def plain (d : Decimal) : List Char :=
  match d.parts with
  | (whole, []) => whole
  | (whole, fraction) => whole ++ '.' :: fraction

/-- All digits, and at least one on each side of the point. -/
def pointed (d : Decimal) : List Char :=
  match d.parts with
  | (whole, []) => whole ++ ['.', '0']
  | (whole, fraction) => whole ++ '.' :: fraction

/-- Exponent of the leading digit. -/
def leadingExponent (d : Decimal) : Int :=
  digitCount d.digits + d.exponent - 1

/-- One digit before the point, and the exponent of that digit behind the sign that is given for it
if it is not negative. -/
def scientific (plus : List Char) (d : Decimal) : List Char :=
  let sign := if d.leadingExponent < 0 then ['-'] else plus
  let exponent := 'e' :: (sign ++ Nat.toDigits 10 d.leadingExponent.natAbs)
  match Nat.toDigits 10 d.digits with
  | [] => exponent
  | [digit] => digit :: exponent
  | digit :: digits => digit :: '.' :: (digits ++ exponent)

end Decimal

/-- How numbers with a point or an exponent are written. -/
structure NumberStyle where
  /-- The least exponent of a leading digit of numbers without an exponent. -/
  pointedFrom : Int
  /-- The least exponent of a leading digit beyond those. -/
  pointedBelow : Int
  /-- What stands before the digits of a positive exponent. -/
  plus : List Char
  tie : Tie
deriving DecidableEq, Repr

namespace NumberStyle

/-- Numbers in bindings: `1500.0`, `0.0001`, `1e-5`, `1e16`, `1.5e20`. -/
def literal : NumberStyle := ⟨-4, 16, [], .upper⟩

/-- Numbers in documents: `1500.0`, `0.00001`, `1e-6`, `1e+16`, `1.5e+20`. -/
def document : NumberStyle := ⟨-5, 16, ['+'], .even⟩

/-- A positive number in a style. -/
def write (style : NumberStyle) (d : Decimal) : List Char :=
  if style.pointedFrom ≤ d.leadingExponent ∧ d.leadingExponent < style.pointedBelow then d.pointed
  else d.scientific style.plus

end NumberStyle

namespace Binary64

/-- A number without an exponent: `0`, `1500`, `0.5`, `100000000000000000000`, `inf`. -/
def plainText (x : Binary64) : String :=
  if !x.isFinite then "inf"
  else if x.isZero then "0"
  else String.ofList (x.shortest .upper).plain

/-- A number with a point or an exponent, or `inf`. -/
def styledText (style : NumberStyle) (x : Binary64) : String :=
  if !x.isFinite then "inf"
  else if x.isZero then "0.0"
  else String.ofList (style.write (x.shortest style.tie))

end Binary64
end BindingPlan
