import BindingPlan.Proofs.Tree.Operands

/-!
# Ordered choice and the first impossible token

Trying the parsers of the grammar in order, and going back where one of them fails, comes to the
same as reading the tokens once.

Main results:

* `follows_expression`: the grammar follows the states of the parser.
* `descend_eq_parseTokens`: the same tree, or the same error at the same place.
-/

namespace BindingPlan

open TokenParser

/-! ## Expressions -/

theorem follows_coalesce {bound : Nat} {expression : TokenParser Tree}
    (hexpression : FollowsBelow bound 0 expression) :
    FollowsBelow (bound + 1) 1 (coalesce expression) :=
  have hproduct := follows_infixLevel (by decide) readsSigns_productOp (follows_unary hexpression)
  have hsum := follows_infixLevel (by decide) readsSigns_sumOp hproduct
  have hrelational := follows_infixLevel (by decide) readsSigns_relationalOp hsum
  have hequality := follows_infixLevel (by decide) readsSigns_equalityOp hrelational
  have hconjunction := follows_infixLevel (by decide) readsSigns_and hequality
  have hdisjunction := follows_infixLevel (by decide) readsSigns_or hconjunction
  follows_infixLevel (by decide) readsSigns_coalesce hdisjunction

/-- Expressions follow the states, by induction on the number of tokens. -/
theorem follows_expression (bound : Nat) : FollowsBelow bound 0 expression := by
  induction bound using Nat.strongRecOn with
  | _ bound ih =>
  intro failure lexemes stack hbound htried hfits
  have hinner : FollowsBelow lexemes.length 0 fun failure shorter =>
      if shorter.length < lexemes.length then recursive ternary failure shorter
      else ⟨failure, none⟩ := by
    intro failure shorter stack hshorter htried hfits
    simp only [if_pos hshorter]
    exact ih lexemes.length hbound failure shorter stack hshorter htried hfits
  unfold expression
  rw [recursive]
  exact follows_ternary hinner (follows_coalesce hinner) failure lexemes stack
    (Nat.lt_succ_self _) htried hfits

theorem descend_of_jams {stop : Nat} {lexemes : List Lexeme} {f : ParseFailure}
    (hwhole : wholeExpression none lexemes = ⟨some f, none⟩) (hjams : Jams .start lexemes f) :
    descend stop lexemes = parseTokens stop lexemes := by
  unfold descend
  rw [hwhole]
  exact (hjams.parseFrom_eq stop).symm

/-- Ordered choice comes to the tree of the tokens, or to the error at the first impossible one. -/
theorem descend_eq_parseTokens (stop : Nat) (lexemes : List Lexeme) :
    descend stop lexemes = parseTokens stop lexemes := by
  have htree := follows_expression (lexemes.length + 1) none lexemes [] (Nat.lt_succ_self _)
    (fun f hf => by cases hf) trivial
  generalize hresult : expression none lexemes = result at htree
  cases htree with
  | @read used rest failure last operand tree below hsplit hrun hpending hcloses hread hstops =>
    subst hsplit
    have hclosed : reduceAll below operand = (tree, []) := hcloses.reduceAll_eq
    by_cases hrest : rest = []
    · subst hrest
      have hwhole : wholeExpression none (used ++ []) = ⟨failure, some (tree, [])⟩ := by
        unfold wholeExpression
        rw [bind_of_read hresult]
        rfl
      have hparsed : parseTokens stop (used ++ []) = .ok tree := by
        rw [List.append_nil]
        exact parseFrom_eq_ok_iff.mpr ⟨last, operand, below, hrun, hpending, hclosed⟩
      unfold descend
      rw [hwhole, hparsed]
    · obtain ⟨f, hfail, hjams⟩ := Jams.of_stops hstops hpending hclosed hread
        (last.notMem_tried (by decide) (by decide)) rfl
        (fun lexeme hlexeme mark hmark => by cases List.mem_singleton.mp hmark)
        (fun hnil => absurd hnil hrest)
      have hwhole : wholeExpression none (used ++ rest) = ⟨some f, none⟩ := by
        unfold wholeExpression
        rw [bind_of_read hresult, bind_of_failed ((endOfInput_of_ne hrest).trans hfail)]
      exact descend_of_jams hwhole (hjams.of_run hrun)
  | @abandoned rest f tree hjams hfurther hle hbroken =>
    have hrest : rest ≠ [] := List.length_pos_iff.mp (Nat.zero_lt_of_lt hfurther)
    have hwhole : wholeExpression none lexemes = ⟨some f, none⟩ := by
      unfold wholeExpression
      rw [bind_of_read hresult,
        bind_of_failed ((endOfInput_of_ne hrest).trans (fail_of_further hfurther))]
    exact descend_of_jams hwhole hjams
  | failed hjams =>
    have hwhole : wholeExpression none lexemes = ⟨some _, none⟩ := bind_of_failed hresult
    exact descend_of_jams hwhole hjams

end BindingPlan
