import BindingPlan.Proofs.Token.Name
import BindingPlan.Tree.Parser

/-!
# Names in parsed trees

The parser takes names of variables and members from name tokens only: whatever holds of the names
of the tokens that were read holds of all names of the state behind them.

Main results:

* `ParseState.forall_names_step?`: one more token keeps a property of names.
* `isName_of_parse`: every name of a parsed tree has the form of a name.
-/

namespace BindingPlan

mutual

/-- The names of variables and members in a tree. -/
def Tree.names : Tree → List String
  | .literal _ _ => []
  | .ident _ name => [name]
  | .field _ receiver name => receiver.names ++ [name.text]
  | .call _ target name args => target.names ++ name.text :: Tree.namesAll args
  | .unary _ _ operand => operand.names
  | .binary _ _ lhs rhs => lhs.names ++ rhs.names
  | .ternary _ predicate ifTrue ifFalse => predicate.names ++ (ifTrue.names ++ ifFalse.names)
  | .coalesce _ lhs rhs => lhs.names ++ rhs.names
  | .group _ inner => inner.names

def Tree.namesAll : List Tree → List String
  | [] => []
  | tree :: trees => tree.names ++ Tree.namesAll trees

end

theorem Tree.namesAll_append (trees more : List Tree) :
    Tree.namesAll (trees ++ more) = Tree.namesAll trees ++ Tree.namesAll more := by
  induction trees with
  | nil => rfl
  | cons tree trees ih => rw [List.cons_append, namesAll, ih, namesAll, List.append_assoc]

def Frame.names : Frame → List String
  | .unary _ _ | .group _ => []
  | .operator _ lhs => lhs.names
  | .ifTrue predicate => predicate.names
  | .ifFalse predicate value => predicate.names ++ value.names
  | .arguments target name done => target.names ++ name.text :: Tree.namesAll done

def ParseState.names : ParseState → List String
  | .operand stack => stack.flatMap Frame.names
  | .firstArgument target name stack => target.names ++ name.text :: stack.flatMap Frame.names
  | .member receiver stack => receiver.names ++ stack.flatMap Frame.names
  | .named receiver name stack => receiver.names ++ name.text :: stack.flatMap Frame.names
  | .complete last stack => last.names ++ stack.flatMap Frame.names

variable {operand tree : Tree} {stack : List Frame} {lexeme : Lexeme} {state next : ParseState}
  {holds : String → Prop} {source : String}

/-! ## Closing constructs -/

theorem names_join (op : InfixOp) (lhs rhs : Tree) :
    (op.join lhs rhs).names = lhs.names ++ rhs.names := by
  cases op <;> rfl

theorem names_reduceTo (level : Nat) (stack : List Frame) (operand : Tree) :
    ∀ name ∈ (reduceTo level stack operand).1.names ++
      (reduceTo level stack operand).2.flatMap Frame.names,
      name ∈ operand.names ++ stack.flatMap Frame.names := by
  fun_induction reduceTo level stack operand with
  | case1 => grind [Tree.names, Frame.names]
  | case2 => grind [names_join, Frame.names]
  | case3 => grind
  | case4 => grind

theorem names_reduceAll (stack : List Frame) (operand : Tree) :
    ∀ name ∈ (reduceAll stack operand).1.names ++
      (reduceAll stack operand).2.flatMap Frame.names,
      name ∈ operand.names ++ stack.flatMap Frame.names := by
  fun_induction reduceAll stack operand with
  | case1 => grind [Tree.names, Frame.names]
  | case2 => grind [names_join, Frame.names]
  | case3 => grind [Tree.names, Frame.names]
  | case4 => grind

/-! ## Steps -/

theorem forall_names_startOperand? (h : startOperand? lexeme stack = some next)
    (hstack : ∀ name ∈ stack.flatMap Frame.names, holds name)
    (htoken : ∀ name, lexeme.token = .name name → holds name) :
    ∀ name ∈ next.names, holds name := by
  unfold startOperand? at h
  split at h
  · cases h
    exact hstack
  · split at h
    · next name hname =>
      cases h
      intro other hother
      rcases List.mem_cons.mp hother with rfl | hother
      · exact htoken _ hname
      · exact hstack _ hother
    · cases h
      exact hstack
    · obtain ⟨op, -, rfl⟩ := Option.map_eq_some_iff.mp h
      exact hstack
    · cases h

theorem forall_names_continue? (h : continue? lexeme operand stack = some next)
    (hboth : ∀ name ∈ operand.names ++ stack.flatMap Frame.names, holds name) :
    ∀ name ∈ next.names, holds name := by
  have hclosed : ∀ name ∈ (reduceAll stack operand).1.names ++
      (reduceAll stack operand).2.flatMap Frame.names, holds name :=
    fun name hname => hboth name (names_reduceAll stack operand name hname)
  unfold continue? at h
  split at h
  · cases h
    exact hboth
  · cases h
    intro name hname
    exact hboth name (names_reduceTo 0 stack operand name hname)
  · -- the value of a choice if its predicate holds
    split at h
    · next heq =>
      cases h
      rw [heq] at hclosed
      grind [ParseState.names, Frame.names]
    · cases h
  · -- an argument that is not the last one
    split at h
    · next heq =>
      cases h
      rw [heq] at hclosed
      grind [ParseState.names, Frame.names, Tree.namesAll_append, Tree.namesAll]
    · cases h
  · split at h
    · next heq =>
      cases h
      rw [heq] at hclosed
      grind [ParseState.names, Frame.names, Tree.names]
    · next heq =>
      cases h
      rw [heq] at hclosed
      grind [ParseState.names, Frame.names, Tree.names, Tree.namesAll_append, Tree.namesAll]
    · cases h
  · obtain ⟨op, -, rfl⟩ := Option.map_eq_some_iff.mp h
    intro name hname
    exact hboth name (names_reduceTo op.level stack operand name hname)
  · cases h

theorem names_fieldOf (receiver : Tree) (name : Name) :
    (fieldOf receiver name).names = receiver.names ++ [name.text] :=
  rfl

/-- A property of all names of a state and of the next token holds of all names of the next
state. -/
theorem ParseState.forall_names_step? (h : state.step? lexeme = some next)
    (hstate : ∀ name ∈ state.names, holds name)
    (htoken : ∀ name, lexeme.token = .name name → holds name) :
    ∀ name ∈ next.names, holds name := by
  unfold step? at h
  split at h
  · exact forall_names_startOperand? h hstate htoken
  · split at h
    · cases h
      grind [ParseState.names, Tree.names, Tree.namesAll]
    · refine forall_names_startOperand? h ?_ htoken
      grind [ParseState.names, Frame.names, Tree.namesAll]
  · split at h
    · next name hname =>
      cases h
      grind [ParseState.names]
    · cases h
  · split at h
    · cases h
      exact hstate
    · refine forall_names_continue? h ?_
      grind [ParseState.names, names_fieldOf]
  · exact forall_names_continue? h hstate

theorem ParseState.forall_names_finish? (h : state.finish? = some tree)
    (hstate : ∀ name ∈ state.names, holds name) : ∀ name ∈ tree.names, holds name := by
  have hclosed (stack : List Frame) (operand : Tree) (heq : reduceAll stack operand = (tree, []))
      (hboth : ∀ name ∈ operand.names ++ stack.flatMap Frame.names, holds name) :
      ∀ name ∈ tree.names, holds name := by
    intro name hname
    refine hboth name (names_reduceAll stack operand name ?_)
    rw [heq]
    exact List.mem_append_left _ hname
  unfold finish? at h
  split at h
  · split at h
    · next heq =>
      cases h
      refine hclosed _ _ heq ?_
      grind [ParseState.names, names_fieldOf]
    · cases h
  · split at h
    · next heq =>
      cases h
      exact hclosed _ _ heq hstate
    · cases h
  · cases h

/-! ## Runs -/

theorem forall_names_parseFrom {stop : Nat} {lexemes : List Lexeme}
    (h : parseFrom stop state lexemes = .ok tree) (hstate : ∀ name ∈ state.names, holds name)
    (htokens : ∀ lexeme ∈ lexemes, ∀ name, lexeme.token = .name name → holds name) :
    ∀ name ∈ tree.names, holds name := by
  induction lexemes generalizing state with
  | nil =>
    unfold parseFrom at h
    split at h
    · next hfinish =>
      cases h
      exact ParseState.forall_names_finish? hfinish hstate
    · cases h
  | cons lexeme lexemes ih =>
    unfold parseFrom at h
    split at h
    · next state' hstep =>
      refine ih h ?_ fun other hother => htokens other (List.mem_cons_of_mem _ hother)
      exact ParseState.forall_names_step? hstep hstate (htokens lexeme List.mem_cons_self)
    · cases h

/-- Every name of a parsed tree has the form of a name. -/
theorem isName_of_parse (h : (parse source).result = .ok tree) :
    ∀ name ∈ tree.names, IsName name.toList := by
  refine forall_names_parseFrom h (fun _ hname => absurd hname List.not_mem_nil) ?_
  rintro ⟨token, span⟩ hlexeme name rfl
  exact isName_of_mem_tokens hlexeme

end BindingPlan
