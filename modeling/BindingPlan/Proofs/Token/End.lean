import BindingPlan.Token.Rule

/-!
# What follows a word

A printed word is followed by what ends it: an operand by a blank, a closing parenthesis or a comma,
a receiver also by a point and a member name, and a name by anything that is not part of a name.

Main definitions:

* `OperandEnd`, `ReceiverEnd`, `NameEnd`: what may follow an operand, a receiver, and a name.
-/

namespace BindingPlan

variable {x : List Char} {c : Char}

/-- What may follow an operand. -/
def OperandEnd : List Char → Prop
  | [] => True
  | c :: _ => c = ' ' ∨ c = ')' ∨ c = ','

/-- What may follow a receiver: what may follow an operand, or an access. -/
def ReceiverEnd : List Char → Prop
  | '.' :: c :: _ => isNameStart c = true
  | text => OperandEnd text

/-- What may follow a name. -/
def NameEnd : List Char → Prop
  | [] => True
  | c :: _ => isNameRest c = false

theorem ReceiverEnd.cases (h : ReceiverEnd x) :
    OperandEnd x ∨ ∃ c rest, x = '.' :: c :: rest ∧ isNameStart c = true := by
  unfold ReceiverEnd at h
  split at h
  · exact .inr ⟨_, _, rfl, h⟩
  · exact .inl h

theorem OperandEnd.receiverEnd (h : OperandEnd x) : ReceiverEnd x := by
  unfold ReceiverEnd
  split
  · rcases h with h | h | h <;> cases h
  · exact h

theorem OperandEnd.nameEnd (h : OperandEnd x) : NameEnd x := by
  cases x with
  | nil => trivial
  | cons c x => rcases h with rfl | rfl | rfl <;> rfl

theorem not_receiverEnd_cons (hpoint : c ≠ '.') (hend : ¬ (c = ' ' ∨ c = ')' ∨ c = ',')) :
    ¬ ReceiverEnd (c :: x) := by
  intro h
  rcases h.cases with h | ⟨_, _, heq, -⟩
  · exact hend h
  · exact hpoint (List.cons.inj heq).1

theorem isNameRest_of_isNameStart (h : isNameStart c = true) : isNameRest c = true := by
  unfold isNameStart at h
  unfold isNameRest
  unfold Char.isAlphanum
  grind

theorem isNameRest_of_isDigit (h : c.isDigit = true) : isNameRest c = true := by
  unfold isNameRest Char.isAlphanum
  rw [h, Bool.or_true, Bool.true_or, Bool.true_or]

theorem isNameStart_eq_false_of_isDigit (h : c.isDigit = true) : isNameStart c = false := by
  rw [← Bool.not_eq_true]
  intro hstart
  delta isNameStart Char.isAlpha Char.isUpper Char.isLower at hstart
  delta Char.isDigit at h
  simp only [Bool.or_eq_true, Bool.and_eq_true, decide_eq_true_eq, UInt32.le_iff_toNat_le,
    ge_iff_le, beq_iff_eq] at h hstart
  have : '9'.val.toNat = 57 := rfl
  have : 'A'.val.toNat = 65 := rfl
  have : 'a'.val.toNat = 97 := rfl
  rcases hstart with (hstart | rfl) | rfl
  · omega
  · exact absurd h (by decide)
  · exact absurd h (by decide)

theorem not_receiverEnd_of_isNameRest (h : isNameRest c = true) : ¬ ReceiverEnd (c :: x) := by
  refine not_receiverEnd_cons ?_ ?_
  · rintro rfl
    cases h
  · rintro (rfl | rfl | rfl) <;> cases h

end BindingPlan
