import BindingPlan.Proofs.Binding.Lowering

/-!
# Expanded trees

With `a ?? b` written out as `a == null ? b : a`, the text of a tree is the key of its expression:
printing and the making of keys agree on every construct.

Main results:

* `Tree.expanded`: a tree with all defaults written out.
* `Tree.render_expanded`: the text of the expanded tree is the key of its expression.
* `Tree.mem_idents_of_expression_eq`: trees with one expression name the same variables.
-/

namespace BindingPlan

mutual

/-- The tree with `a ?? b` written out as `a == null ? b : a`. -/
def Tree.expanded : Tree → Tree
  | .literal span value => .literal span value
  | .ident span name => .ident span name
  | .field span receiver name => .field span receiver.expanded name
  | .call span target name args => .call span target.expanded name (Tree.expandedAll args)
  | .unary span op operand => .unary span op operand.expanded
  | .binary span op lhs rhs => .binary span op lhs.expanded rhs.expanded
  | .ternary span predicate ifTrue ifFalse =>
    .ternary span predicate.expanded ifTrue.expanded ifFalse.expanded
  | .coalesce span lhs rhs =>
    .ternary span (.binary span (.compare .eq) lhs.expanded (.literal span .null)) rhs.expanded
      lhs.expanded
  | .group span inner => .group span inner.expanded

def Tree.expandedAll : List Tree → List Tree
  | [] => []
  | tree :: trees => tree.expanded :: Tree.expandedAll trees

end

mutual

/-- The text of a tree with all defaults written out is the key of its expression. -/
theorem Tree.render_expanded : ∀ tree : Tree, tree.expanded.render = tree.expression.key
  | .literal _ _ | .ident _ _ => rfl
  | .field _ receiver name => by
    simp [expanded, render, expression, Expression.key, Kind.key, receiver.render_expanded]
  | .call _ target name args => by
    simp [expanded, render, expression, Expression.key, Kind.key, target.render_expanded,
      Tree.renderAll_expandedAll args]
  | .unary _ op operand => by
    simp [expanded, render, expression, Expression.key, Kind.key, operand.render_expanded]
  | .binary _ op lhs rhs => by
    simp [expanded, render, expression, Expression.key, Kind.key, lhs.render_expanded,
      rhs.render_expanded]
  | .ternary _ predicate ifTrue ifFalse => by
    simp [expanded, render, expression, Expression.key, Kind.key, predicate.render_expanded,
      ifTrue.render_expanded, ifFalse.render_expanded]
  | .coalesce _ lhs rhs => by
    simp [expanded, render, expression, Expression.key, Kind.key, Literal.render,
      lhs.render_expanded, rhs.render_expanded]
  | .group _ inner => inner.render_expanded

theorem Tree.renderAll_expandedAll : ∀ trees : List Tree,
    Tree.renderAll (Tree.expandedAll trees) = Expression.keys (Tree.expressions trees)
  | [] => rfl
  | tree :: trees => by
    simp only [expandedAll, renderAll, expressions, Expression.keys, tree.render_expanded,
      Tree.renderAll_expandedAll trees]

end

/-! ## Variables -/

mutual

/-- The names in an expression that are no members. -/
def Expression.variables : Expression → List String
  | .literal _ => []
  | .ident name => [name]
  | .field receiver _ => receiver.variables
  | .call target _ args => target.variables ++ Expression.variablesAll args
  | .unary _ operand => operand.variables
  | .binary _ lhs rhs => lhs.variables ++ rhs.variables
  | .ternary predicate ifTrue ifFalse =>
    predicate.variables ++ (ifTrue.variables ++ ifFalse.variables)

def Expression.variablesAll : List Expression → List String
  | [] => []
  | e :: es => e.variables ++ Expression.variablesAll es

end

mutual

/-- The names in a tree that are no members are those of its expression. -/
theorem Tree.mem_variables_expression : ∀ (tree : Tree) {name : String},
    name ∈ tree.expression.variables ↔ name ∈ tree.idents
  | .literal _ _, _ | .ident _ _, _ => Iff.rfl
  | .field _ receiver _, _ => receiver.mem_variables_expression
  | .call _ target _ args, _ => by
    simp only [expression, Expression.variables, idents, List.mem_append,
      target.mem_variables_expression, Tree.mem_variablesAll_expressions args]
  | .unary _ _ operand, _ => operand.mem_variables_expression
  | .binary _ _ lhs rhs, _ => by
    simp only [expression, Expression.variables, idents, List.mem_append,
      lhs.mem_variables_expression, rhs.mem_variables_expression]
  | .ternary _ predicate ifTrue ifFalse, _ => by
    simp only [expression, Expression.variables, idents, List.mem_append,
      predicate.mem_variables_expression, ifTrue.mem_variables_expression,
      ifFalse.mem_variables_expression]
  | .coalesce _ lhs rhs, _ => by
    simp only [expression, Expression.variables, idents, List.mem_append,
      lhs.mem_variables_expression, rhs.mem_variables_expression, List.not_mem_nil, or_false]
    tauto
  | .group _ inner, _ => inner.mem_variables_expression

theorem Tree.mem_variablesAll_expressions : ∀ (trees : List Tree) {name : String},
    name ∈ Expression.variablesAll (Tree.expressions trees) ↔ name ∈ Tree.identsAll trees
  | [], _ => Iff.rfl
  | tree :: trees, _ => by
    simp only [expressions, Expression.variablesAll, identsAll, List.mem_append,
      tree.mem_variables_expression, Tree.mem_variablesAll_expressions trees]

end

/-- Trees that say the same name the same variables. -/
theorem Tree.mem_idents_of_expression_eq {tree other : Tree}
    (h : other.expression = tree.expression) {name : String} (hname : name ∈ other.idents) :
    name ∈ tree.idents := by
  rw [← mem_variables_expression, ← h, mem_variables_expression]
  exact hname

end BindingPlan
