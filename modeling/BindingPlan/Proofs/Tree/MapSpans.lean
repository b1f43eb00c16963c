import BindingPlan.Proofs.Tree.Recognition

/-!
# Changed spans

The parser looks at no span: with all spans of the tokens changed, it does the same steps, and the
spans of its trees are changed in the same way. The change has to respect the spans that are made
from the start of one and the end of another.

Main results:

* `ParseState.step?_mapSpans`, `ParseState.run?_mapSpans`: steps with changed spans.
* `parseTokens_mapSpans`: the tree of tokens with changed spans.
* `ParseState.isSome_run?_of_tokens`: what is read of tokens does not depend on their spans.
-/

namespace BindingPlan

variable {f : Span → Span}

/-! ## Changed values -/

def Lexeme.mapSpan (f : Span → Span) (lexeme : Lexeme) : Lexeme :=
  ⟨lexeme.token, f lexeme.span⟩

def Name.mapSpan (f : Span → Span) (name : Name) : Name :=
  ⟨name.text, f name.span⟩

mutual

/-- The tree with all its spans changed. -/
def Tree.mapSpans (f : Span → Span) : Tree → Tree
  | .literal span value => .literal (f span) value
  | .ident span name => .ident (f span) name
  | .field span receiver name => .field (f span) (receiver.mapSpans f) (name.mapSpan f)
  | .call span target name args =>
    .call (f span) (target.mapSpans f) (name.mapSpan f) (Tree.mapSpansAll f args)
  | .unary span op operand => .unary (f span) op (operand.mapSpans f)
  | .binary span op lhs rhs => .binary (f span) op (lhs.mapSpans f) (rhs.mapSpans f)
  | .ternary span predicate ifTrue ifFalse =>
    .ternary (f span) (predicate.mapSpans f) (ifTrue.mapSpans f) (ifFalse.mapSpans f)
  | .coalesce span lhs rhs => .coalesce (f span) (lhs.mapSpans f) (rhs.mapSpans f)
  | .group span inner => .group (f span) (inner.mapSpans f)

def Tree.mapSpansAll (f : Span → Span) : List Tree → List Tree
  | [] => []
  | tree :: trees => tree.mapSpans f :: Tree.mapSpansAll f trees

end

def Frame.mapSpans (f : Span → Span) : Frame → Frame
  | .unary op start => .unary op (f start)
  | .operator op lhs => .operator op (lhs.mapSpans f)
  | .ifTrue predicate => .ifTrue (predicate.mapSpans f)
  | .ifFalse predicate value => .ifFalse (predicate.mapSpans f) (value.mapSpans f)
  | .group start => .group (f start)
  | .arguments target name done =>
    .arguments (target.mapSpans f) (name.mapSpan f) (Tree.mapSpansAll f done)

def ParseState.mapSpans (f : Span → Span) : ParseState → ParseState
  | .operand stack => .operand (stack.map (Frame.mapSpans f))
  | .firstArgument target name stack =>
    .firstArgument (target.mapSpans f) (name.mapSpan f) (stack.map (Frame.mapSpans f))
  | .member receiver stack => .member (receiver.mapSpans f) (stack.map (Frame.mapSpans f))
  | .named receiver name stack =>
    .named (receiver.mapSpans f) (name.mapSpan f) (stack.map (Frame.mapSpans f))
  | .complete last stack => .complete (last.mapSpans f) (stack.map (Frame.mapSpans f))

@[simp] theorem Tree.span_mapSpans (tree : Tree) : (tree.mapSpans f).span = f tree.span := by
  cases tree <;> rfl

@[simp] theorem Tree.mapSpansAll_append (trees more : List Tree) :
    Tree.mapSpansAll f (trees ++ more) = Tree.mapSpansAll f trees ++ Tree.mapSpansAll f more := by
  induction trees with
  | nil => rfl
  | cons tree trees ih => rw [List.cons_append, mapSpansAll, mapSpansAll, ih, List.cons_append]

section

variable (hf : ∀ first last : Span, f (first.to last) = (f first).to (f last))

include hf

theorem InfixOp.mapSpans_join (op : InfixOp) (lhs rhs : Tree) :
    (op.join lhs rhs).mapSpans f = op.join (lhs.mapSpans f) (rhs.mapSpans f) := by
  cases op <;> simp only [join, Tree.mapSpans, Tree.span_mapSpans, hf]

theorem mapSpans_fieldOf (receiver : Tree) (name : Name) :
    (fieldOf receiver name).mapSpans f = fieldOf (receiver.mapSpans f) (name.mapSpan f) := by
  simp only [fieldOf, Tree.mapSpans, Tree.span_mapSpans, hf, Name.mapSpan]

/-! ## Closing constructs -/

theorem reduceTo_mapSpans (level : Nat) (stack : List Frame) (operand : Tree) :
    reduceTo level (stack.map (Frame.mapSpans f)) (operand.mapSpans f) =
      Prod.map (Tree.mapSpans f) (List.map (Frame.mapSpans f)) (reduceTo level stack operand) := by
  fun_induction reduceTo level stack operand with
  | case1 op start stack operand ih =>
    rw [← ih]
    simp only [List.map_cons, Frame.mapSpans, reduceTo, Tree.mapSpans, Tree.span_mapSpans, hf]
  | case2 op lhs stack operand hlevel ih =>
    rw [← ih]
    simp only [List.map_cons, Frame.mapSpans, reduceTo, if_pos hlevel, InfixOp.mapSpans_join hf]
  | case3 op lhs stack operand hlevel =>
    simp only [List.map_cons, Frame.mapSpans, reduceTo, if_neg hlevel, Prod.map]
  | case4 stack operand hunary hoperator =>
    cases stack with
    | nil => rfl
    | cons frame stack =>
      cases frame with
      | unary => exact absurd rfl (hunary _ _ _)
      | operator => exact absurd rfl (hoperator _ _ _)
      | ifTrue | ifFalse | group | arguments => rfl

theorem reduceAll_mapSpans (stack : List Frame) (operand : Tree) :
    reduceAll (stack.map (Frame.mapSpans f)) (operand.mapSpans f) =
      Prod.map (Tree.mapSpans f) (List.map (Frame.mapSpans f)) (reduceAll stack operand) := by
  fun_induction reduceAll stack operand with
  | case1 op start stack operand ih =>
    rw [← ih]
    simp only [List.map_cons, Frame.mapSpans, reduceAll, Tree.mapSpans, Tree.span_mapSpans, hf]
  | case2 op lhs stack operand ih =>
    rw [← ih]
    simp only [List.map_cons, Frame.mapSpans, reduceAll, InfixOp.mapSpans_join hf]
  | case3 predicate value stack operand ih =>
    rw [← ih]
    simp only [List.map_cons, Frame.mapSpans, reduceAll, Tree.mapSpans, Tree.span_mapSpans, hf]
  | case4 stack operand hunary hoperator hifFalse =>
    cases stack with
    | nil => rfl
    | cons frame stack =>
      cases frame with
      | unary => exact absurd rfl (hunary _ _ _)
      | operator => exact absurd rfl (hoperator _ _ _)
      | ifFalse => exact absurd rfl (hifFalse _ _ _)
      | ifTrue | group | arguments => rfl

/-! ## Steps -/

omit hf in
theorem startOperand?_mapSpans (lexeme : Lexeme) (stack : List Frame) :
    startOperand? (lexeme.mapSpan f) (stack.map (Frame.mapSpans f)) =
      (startOperand? lexeme stack).map (ParseState.mapSpans f) := by
  obtain ⟨token, span⟩ := lexeme
  unfold startOperand?
  cases token with
  | mark mark => cases mark <;> rfl
  | _ => rfl

theorem continue?_mapSpans (lexeme : Lexeme) (operand : Tree) (stack : List Frame) :
    continue? (lexeme.mapSpan f) (operand.mapSpans f) (stack.map (Frame.mapSpans f)) =
      (continue? lexeme operand stack).map (ParseState.mapSpans f) := by
  obtain ⟨token, span⟩ := lexeme
  have hto := reduceTo_mapSpans hf
  have hall := reduceAll_mapSpans hf stack operand
  unfold continue?
  cases token with
  | mark mark =>
    cases mark with
    | colon | comma | closeParen =>
      dsimp only [Lexeme.mapSpan]
      rw [hall]
      rcases reduceAll stack operand with ⟨value, _ | ⟨frame, rest⟩⟩
      · rfl
      cases frame <;>
        simp only [List.map_cons, Frame.mapSpans, Prod.map, Option.map_some, Option.map_none,
          ParseState.mapSpans, Tree.mapSpans, Tree.mapSpansAll_append, Tree.mapSpansAll,
          Tree.span_mapSpans, hf]
    | _ =>
      simp only [Lexeme.mapSpan, Mark.infixOp?, hto, Prod.map, Option.map_some, Option.map_none,
        ParseState.mapSpans, List.map_cons, Frame.mapSpans]
  | _ => rfl

theorem ParseState.step?_mapSpans (state : ParseState) (lexeme : Lexeme) :
    (state.mapSpans f).step? (lexeme.mapSpan f) =
      (state.step? lexeme).map (ParseState.mapSpans f) := by
  cases state with
  | operand stack => exact startOperand?_mapSpans lexeme stack
  | firstArgument target name stack =>
    simp only [mapSpans, step?]
    by_cases hclose : lexeme.token = .mark .closeParen
    · rw [if_pos hclose, if_pos (by exact hclose), Option.map_some]
      simp only [mapSpans, Tree.mapSpans, Tree.mapSpansAll, Tree.span_mapSpans, hf, Lexeme.mapSpan]
    · rw [if_neg hclose, if_neg (by exact hclose)]
      exact startOperand?_mapSpans lexeme (.arguments target name [] :: stack)
  | member receiver stack =>
    obtain ⟨token, span⟩ := lexeme
    cases token <;> rfl
  | named receiver name stack =>
    simp only [mapSpans, step?]
    by_cases hopen : lexeme.token = .mark .openParen
    · rw [if_pos hopen, if_pos (by exact hopen)]
      rfl
    · rw [if_neg hopen, if_neg (by exact hopen), ← mapSpans_fieldOf hf]
      exact continue?_mapSpans hf lexeme (fieldOf receiver name) stack
  | complete operand stack => exact continue?_mapSpans hf lexeme operand stack

theorem ParseState.run?_mapSpans (state : ParseState) (lexemes : List Lexeme) :
    (state.mapSpans f).run? (lexemes.map (Lexeme.mapSpan f)) =
      (state.run? lexemes).map (ParseState.mapSpans f) := by
  induction lexemes generalizing state with
  | nil => rfl
  | cons lexeme lexemes ih =>
    rw [List.map_cons, run?, run?, step?_mapSpans hf]
    cases state.step? lexeme with
    | none => rfl
    | some next => exact ih next

theorem ParseState.pending?_mapSpans (state : ParseState) :
    (state.mapSpans f).pending? =
      state.pending?.map (Prod.map (Tree.mapSpans f) (List.map (Frame.mapSpans f))) := by
  cases state with
  | named receiver name stack =>
    simp only [mapSpans, pending?, Option.map_some, Prod.map, mapSpans_fieldOf hf]
  | _ => rfl

/-- The tree of tokens with changed spans is the tree with its spans changed. -/
theorem parseTokens_mapSpans {stop : Nat} {lexemes : List Lexeme} {tree : Tree}
    (h : parseTokens stop lexemes = .ok tree) (stop' : Nat) :
    parseTokens stop' (lexemes.map (Lexeme.mapSpan f)) = .ok (tree.mapSpans f) := by
  obtain ⟨last, operand, stack, hrun, hpending, hclosed⟩ := parseFrom_eq_ok_iff.mp h
  refine parseFrom_eq_ok_iff.mpr
    ⟨last.mapSpans f, operand.mapSpans f, stack.map (Frame.mapSpans f), ?_, ?_, ?_⟩
  · exact (ParseState.run?_mapSpans hf .start lexemes).trans (congrArg _ hrun)
  · rw [ParseState.pending?_mapSpans hf, hpending]
    rfl
  · rw [reduceAll_mapSpans hf, hclosed]
    rfl

theorem Derives.mapSpans {lexemes : List Lexeme} {tree : Tree} (h : Derives 0 lexemes tree) :
    Derives 0 (lexemes.map (Lexeme.mapSpan f)) (tree.mapSpans f) :=
  parseTokens_eq_ok_iff.mp (parseTokens_mapSpans hf (h.parseTokens_eq 0) 0)

end

/-- Whether tokens can be read does not depend on their spans. -/
theorem ParseState.isSome_run?_of_tokens {lexemes lexemes' : List Lexeme} (state : ParseState)
    (htokens : lexemes.map Lexeme.token = lexemes'.map Lexeme.token) :
    (state.run? lexemes).isSome = (state.run? lexemes').isSome := by
  have hspanless (l : List Lexeme) : l.map (Lexeme.mapSpan fun _ => default) =
      (l.map Lexeme.token).map fun token => ⟨token, default⟩ := by
    rw [List.map_map]
    rfl
  have hrun (l : List Lexeme) : (state.run? l).isSome = ((state.mapSpans fun _ => default).run?
      (l.map (Lexeme.mapSpan fun _ => default))).isSome := by
    rw [run?_mapSpans fun _ _ => rfl, Option.isSome_map]
  rw [hrun, hrun, hspanless, hspanless, htokens]

end BindingPlan
