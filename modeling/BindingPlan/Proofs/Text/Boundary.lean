import BindingPlan.Text.Span
import Mathlib.Data.List.Basic

/-!
# Positions between characters

A byte position of a text is a boundary if it is not inside a character and not beyond the end. A
text can be cut at its boundaries, and a span with two of them covers whole characters.

Main results:

* `Boundary.exists_cut`: a text is cut at two boundaries.
* `boundary_of_single`: in a text of characters of one byte every position up to the end is one.
-/

namespace BindingPlan

variable {text : List Char} {position start stop : Nat} {span first last : Span}

/-- The position is between two characters of the text, or at an end of it. -/
def Boundary (text : List Char) (position : Nat) : Prop :=
  ∃ before after, text = before ++ after ∧ byteLength before = position

/-- The span covers a piece of the text. -/
structure Span.Within (text : List Char) (span : Span) : Prop where
  start : Boundary text span.start
  stop : Boundary text span.stop
  le : span.start ≤ span.stop

theorem boundary_byteLength (text : List Char) : Boundary text (byteLength text) :=
  ⟨text, [], (List.append_nil text).symm, rfl⟩

theorem Boundary.le (h : Boundary text position) : position ≤ byteLength text := by
  obtain ⟨before, after, rfl, rfl⟩ := h
  rw [byteLength_append]
  omega

/-- From one span to another one that ends behind the start of the first. -/
theorem Span.Within.to (hfirst : first.Within text) (hlast : last.Within text)
    (hle : first.start ≤ last.stop) : (first.to last).Within text :=
  ⟨hfirst.start, hlast.stop, hle⟩

/-- A text is cut at two boundaries; if the second one is in front of the first, then the piece
between them is empty. -/
theorem Boundary.exists_cut (hstart : Boundary text start) (hstop : Boundary text stop) :
    ∃ before covered rest, splitAtByte text start = some (before, covered ++ rest) ∧
      splitAtByte (covered ++ rest) (stop - start) = some (covered, rest) := by
  obtain ⟨before, after, rfl, rfl⟩ := hstart
  obtain ⟨upto, behind, heq, rfl⟩ := hstop
  rcases List.append_eq_append_iff.mp heq with ⟨covered, rfl, rfl⟩ | ⟨covered, rfl, rfl⟩
  · refine ⟨before, covered, behind, splitAtByte_append _ _, ?_⟩
    rw [byteLength_append, Nat.add_sub_cancel_left, splitAtByte_append]
  · refine ⟨_, [], after, splitAtByte_append _ _, ?_⟩
    rw [byteLength_append, Nat.sub_eq_zero_of_le (Nat.le_add_right _ _)]
    exact splitAtByte_append [] after

/-- In a text of characters of one byte every position up to the end is a boundary. -/
theorem boundary_of_single (h : ∀ c ∈ text, c.utf8Size = 1) (hle : position ≤ byteLength text) :
    Boundary text position := by
  have hlength : ∀ part : List Char, (∀ c ∈ part, c.utf8Size = 1) →
      byteLength part = part.length := by
    intro part hpart
    induction part with
    | nil => rfl
    | cons c part ih =>
      rw [byteLength_cons, hpart c List.mem_cons_self,
        ih fun c hc => hpart c (List.mem_cons_of_mem _ hc), List.length_cons, Nat.add_comm]
  refine ⟨text.take position, text.drop position, (List.take_append_drop _ _).symm, ?_⟩
  rw [hlength _ fun c hc => h c (List.mem_of_mem_take hc), List.length_take]
  rw [hlength text h] at hle
  omega

end BindingPlan
