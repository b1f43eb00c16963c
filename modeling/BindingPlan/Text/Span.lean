/-!
# Spans

Positions in a source text are counted in bytes of its UTF-8 form. A span is a range of such
positions; cutting a text at a position fails when the position lies inside a character or beyond
the end.

Main result:

* `splitAtByte_append`: a text of two parts is cut at the length of the first.
-/

namespace BindingPlan

/-- A range of byte positions of a source text (`Span`). -/
structure Span where
  start : Nat
  stop : Nat
deriving DecidableEq, Repr, Inhabited

/-- The span from the start of the first to the end of the second (`join`). -/
def Span.to (first last : Span) : Span :=
  ⟨first.start, last.stop⟩

/-- Length of a text in bytes. -/
def byteLength : List Char → Nat
  | [] => 0
  | c :: text => c.utf8Size + byteLength text

@[simp] theorem byteLength_nil : byteLength [] = 0 := rfl

@[simp] theorem byteLength_cons (c : Char) (text : List Char) :
    byteLength (c :: text) = c.utf8Size + byteLength text := rfl

@[simp] theorem byteLength_append (left right : List Char) :
    byteLength (left ++ right) = byteLength left + byteLength right := by
  induction left with
  | nil => simp
  | cons c left ih => simp [ih, Nat.add_assoc]

/-- The part of a text before a byte position and the part from there on; `none` if the position is
not between two characters. -/
def splitAtByte : List Char → Nat → Option (List Char × List Char)
  | text, 0 => some ([], text)
  | [], _ + 1 => none
  | c :: text, position + 1 =>
    if c.utf8Size ≤ position + 1 then
      (splitAtByte text (position + 1 - c.utf8Size)).map fun (before, after) => (c :: before, after)
    else none

/-- The characters that a span covers; `none` if one of its ends is not between two characters. -/
def Span.slice? (span : Span) (text : List Char) : Option (List Char) := do
  let (_, rest) ← splitAtByte text span.start
  let (covered, _) ← splitAtByte rest (span.stop - span.start)
  return covered

theorem splitAtByte_append (left right : List Char) :
    splitAtByte (left ++ right) (byteLength left) = some (left, right) := by
  induction left with
  | nil => cases right <;> rfl
  | cons c left ih =>
    have size : 0 < c.utf8Size := Char.utf8Size_pos c
    obtain ⟨position, sum⟩ : ∃ position, c.utf8Size + byteLength left = position + 1 :=
      ⟨c.utf8Size + byteLength left - 1, by omega⟩
    have fits : c.utf8Size ≤ position + 1 := by omega
    have rest : position + 1 - c.utf8Size = byteLength left := by omega
    rw [List.cons_append, byteLength_cons, sum, splitAtByte, if_pos fits, rest, ih]
    rfl

end BindingPlan
