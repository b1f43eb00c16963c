import BindingPlan.Proofs.Tree.Acceptance
import BindingPlan.Proofs.Tree.Printing

/-!
# Printed trees parse back

The tokens of a printed tree derive the tree again. The parentheses that printing puts around each
operator between operands become groups, and those of the tree leave no trace; so an operand of any
printed operator is a member, a literal, a name or a group, or has an operator in front.

Main definitions:

* `Tree.bare`: the tree without its groups, all spans forgotten.

Main results:

* `Tree.parsesAs`: the tokens of a printed tree derive it, up to groups and spans.
* `parse_render`: a printed tree parses back.
-/

namespace BindingPlan

/-! ## Bare trees -/

mutual

/-- The tree without its groups, all spans forgotten. -/
def Tree.bare : Tree → Tree
  | .literal _ value => .literal default value
  | .ident _ name => .ident default name
  | .field _ receiver name => .field default receiver.bare ⟨name.text, default⟩
  | .call _ target name args =>
    .call default target.bare ⟨name.text, default⟩ (Tree.bareAll args)
  | .unary _ op operand => .unary default op operand.bare
  | .binary _ op lhs rhs => .binary default op lhs.bare rhs.bare
  | .ternary _ predicate ifTrue ifFalse =>
    .ternary default predicate.bare ifTrue.bare ifFalse.bare
  | .coalesce _ lhs rhs => .coalesce default lhs.bare rhs.bare
  | .group _ inner => inner.bare

def Tree.bareAll : List Tree → List Tree
  | [] => []
  | tree :: trees => tree.bare :: Tree.bareAll trees

end

theorem UnaryOp.prefixSign_mark (op : UnaryOp) : PrefixSign op.mark op := by
  cases op <;> constructor

theorem InfixOp.infixOp?_mark (op : InfixOp) : op.mark.infixOp? = some op := by
  rcases op with _ | ⟨_ | _ | _ | _ | _⟩ | ⟨_ | _ | _ | _ | _ | _⟩ | ⟨_ | _⟩ <;> rfl

theorem Literal.literalToken_token (value : Literal) : LiteralToken value.token value := by
  cases value with
  | bool value => cases value <;> constructor
  | _ => constructor

/-! ## Derived constructs -/

/-- The tokens are a construct of the level, whatever their spans, and its tree is the given one up
to groups and spans. -/
def ParsesAs (level : Nat) (tokens : List Token) (tree : Tree) : Prop :=
  ∀ lexemes, lexemes.map Lexeme.token = tokens →
    ∃ parsed, Derives level lexemes parsed ∧ parsed.bare = tree.bare

section

variable {level looser : Nat} {ts us vs : List Token}
  {tree lhs rhs receiver predicate ifTrue ifFalse operand : Tree} {args : List Tree}

theorem ParsesAs.loosenTo (h : ParsesAs level ts tree) (hle : looser ≤ level) :
    ParsesAs looser ts tree := by
  intro lexemes hlexemes
  obtain ⟨parsed, hderives, hbare⟩ := h lexemes hlexemes
  exact ⟨parsed, hderives.loosenTo hle, hbare⟩

theorem parsesAs_literal (span : Span) (value : Literal) :
    ParsesAs 10 [value.token] (.literal span value) := by
  intro lexemes hlexemes
  obtain ⟨lexeme, rfl, htoken⟩ := List.map_eq_singleton_iff.mp hlexemes
  exact ⟨_, .literal (htoken ▸ value.literalToken_token), rfl⟩

theorem parsesAs_ident (span : Span) (name : String) :
    ParsesAs 10 [.name name] (.ident span name) := by
  intro lexemes hlexemes
  obtain ⟨lexeme, rfl, htoken⟩ := List.map_eq_singleton_iff.mp hlexemes
  exact ⟨_, .ident htoken, rfl⟩

theorem parsesAs_field (h : ParsesAs 9 ts receiver) (span : Span) (name : Name) :
    ParsesAs 9 (ts ++ [.mark .dot, .name name.text]) (.field span receiver name) := by
  intro lexemes hlexemes
  obtain ⟨l, member, rfl, hl, hmember⟩ := List.map_eq_append_iff.mp hlexemes
  obtain ⟨dot, names, rfl, hdot, hnames⟩ := List.map_eq_cons_iff.mp hmember
  obtain ⟨lexeme, rfl, hname⟩ := List.map_eq_singleton_iff.mp hnames
  obtain ⟨parsed, hderives, hbare⟩ := h l hl
  refine ⟨_, .field hderives hdot hname, ?_⟩
  rw [Tree.bare, Tree.bare, hbare]

theorem parsesAs_unary (h : ParsesAs 8 ts operand) (span : Span) (op : UnaryOp) :
    ParsesAs 8 (.mark op.mark :: ts) (.unary span op operand) := by
  intro lexemes hlexemes
  obtain ⟨sign, l, rfl, hsign, hl⟩ := List.map_eq_cons_iff.mp hlexemes
  obtain ⟨parsed, hderives, hbare⟩ := h l hl
  refine ⟨_, .unary op.prefixSign_mark hsign hderives, ?_⟩
  rw [Tree.bare, Tree.bare, hbare]

/-- The parentheses around an operator are a group. -/
theorem parsesAs_inParens (h : ParsesAs level ts tree) : ParsesAs 10 (inParens ts) tree := by
  intro lexemes hlexemes
  obtain ⟨opening, inner, rfl, hopening, hinner⟩ := List.map_eq_cons_iff.mp hlexemes
  obtain ⟨l, last, rfl, hl, hlast⟩ := List.map_eq_append_iff.mp hinner
  obtain ⟨closing, rfl, hclosing⟩ := List.map_eq_singleton_iff.mp hlast
  obtain ⟨parsed, hderives, hbare⟩ := h.loosenTo (Nat.zero_le level) l hl
  exact ⟨_, .group hopening hderives hclosing, hbare⟩

theorem parsesAs_operator (op : InfixOp) (hlhs : ParsesAs 8 ts lhs) (hrhs : ParsesAs 8 us rhs) :
    ParsesAs (op.level + 1) (ts ++ .mark op.mark :: us) (op.join lhs rhs) := by
  intro lexemes hlexemes
  have hlevel := op.level_le
  obtain ⟨l, behind, rfl, hl, hbehind⟩ := List.map_eq_append_iff.mp hlexemes
  obtain ⟨sign, r, rfl, hsign, hr⟩ := List.map_eq_cons_iff.mp hbehind
  obtain ⟨parsed, hderives, hbare⟩ := hlhs.loosenTo (show op.level + 1 ≤ 8 by omega) l hl
  obtain ⟨parsed', hderives', hbare'⟩ := hrhs.loosenTo (show op.level + 2 ≤ 8 by omega) r hr
  have hop : sign.token.infixOp? = some op := by
    rw [hsign]
    exact op.infixOp?_mark
  refine ⟨_, .operator hderives hop hderives', ?_⟩
  cases op <;> rw [InfixOp.join, InfixOp.join, Tree.bare, Tree.bare, hbare, hbare']

theorem parsesAs_ternary (hp : ParsesAs 8 ts predicate) (ht : ParsesAs 8 us ifTrue)
    (hf : ParsesAs 8 vs ifFalse) (span : Span) :
    ParsesAs 0 (ts ++ .mark .question :: (us ++ .mark .colon :: vs))
      (.ternary span predicate ifTrue ifFalse) := by
  intro lexemes hlexemes
  obtain ⟨p, behind, rfl, hpred, hbehind⟩ := List.map_eq_append_iff.mp hlexemes
  obtain ⟨question, values, rfl, hquestion, hvalues⟩ := List.map_eq_cons_iff.mp hbehind
  obtain ⟨t, other, rfl, htrue, hother⟩ := List.map_eq_append_iff.mp hvalues
  obtain ⟨colon, f, rfl, hcolon, hfalse⟩ := List.map_eq_cons_iff.mp hother
  obtain ⟨parsed, hderives, hbare⟩ := hp.loosenTo (show 1 ≤ 8 by decide) p hpred
  obtain ⟨parsed', hderives', hbare'⟩ := ht.loosenTo (Nat.zero_le 8) t htrue
  obtain ⟨parsed'', hderives'', hbare''⟩ := hf.loosenTo (Nat.zero_le 8) f hfalse
  refine ⟨_, .ternary hderives hquestion hderives' hcolon hderives'', ?_⟩
  rw [Tree.bare, Tree.bare, hbare, hbare', hbare'']

/-! ## Arguments -/

/-- One more argument in front, by induction on the number of the others. -/
theorem DerivesArgs.cons {l a : List Lexeme} {comma : Lexeme} {arg : Tree} (hl : Derives 0 l arg)
    (hcomma : comma.token = .mark .comma) (h : DerivesArgs a args) :
    DerivesArgs (l ++ comma :: a) (arg :: args) := by
  obtain ⟨n, hn⟩ : ∃ n, args.length = n := ⟨_, rfl⟩
  induction n generalizing a args with
  | zero => exact absurd (List.eq_nil_of_length_eq_zero hn) h.ne_nil
  | succ n ih =>
    cases h with
    | first h => exact .next (.first hl) hcomma h
    | next hargs hnext h =>
      have hmore := DerivesArgs.next (ih hargs (by simpa using hn)) hnext h
      rwa [List.append_assoc] at hmore

theorem parsesAs_arguments {arg : Tree} (h : ∀ part ∈ arg :: args, ParsesAs 8 part.tokens part) :
    ∀ lexemes, lexemes.map Lexeme.token =
        [Token.mark .comma].intercalate (Tree.tokensAll (arg :: args)) →
      ∃ parsed, DerivesArgs lexemes parsed ∧ Tree.bareAll parsed = Tree.bareAll (arg :: args) := by
  induction args generalizing arg with
  | nil =>
    intro lexemes hlexemes
    have htokens : lexemes.map Lexeme.token = arg.tokens := by
      simpa [Tree.tokensAll] using hlexemes
    obtain ⟨parsed, hderives, hbare⟩ :=
      (h arg List.mem_cons_self).loosenTo (Nat.zero_le 8) lexemes htokens
    exact ⟨[parsed], .first hderives, by rw [Tree.bareAll, Tree.bareAll, hbare]; rfl⟩
  | cons next args ih =>
    intro lexemes hlexemes
    have htokens : lexemes.map Lexeme.token = arg.tokens ++ .mark .comma ::
        [Token.mark .comma].intercalate (Tree.tokensAll (next :: args)) := by
      simpa [Tree.tokensAll] using hlexemes
    obtain ⟨l, behind, rfl, hl, hbehind⟩ := List.map_eq_append_iff.mp htokens
    obtain ⟨comma, a, rfl, hcomma, ha⟩ := List.map_eq_cons_iff.mp hbehind
    obtain ⟨parsed, hderives, hbare⟩ :=
      (h arg List.mem_cons_self).loosenTo (Nat.zero_le 8) l hl
    obtain ⟨more, hmore, hbares⟩ :=
      ih (fun part hpart => h part (List.mem_cons_of_mem _ hpart)) a ha
    exact ⟨parsed :: more, .cons hderives hcomma hmore, by
      rw [Tree.bareAll, Tree.bareAll, hbare, hbares]⟩

theorem parsesAs_call (htarget : ParsesAs 9 ts receiver)
    (hargs : ∀ arg ∈ args, ParsesAs 8 arg.tokens arg) (span : Span) (name : Name) :
    ParsesAs 9 (ts ++ .mark .dot :: .name name.text :: .mark .openParen ::
      ([.mark .comma].intercalate (Tree.tokensAll args) ++ [.mark .closeParen]))
      (.call span receiver name args) := by
  intro lexemes hlexemes
  obtain ⟨l, behind, rfl, hl, hbehind⟩ := List.map_eq_append_iff.mp hlexemes
  obtain ⟨dot, behind, rfl, hdot, hbehind⟩ := List.map_eq_cons_iff.mp hbehind
  obtain ⟨lexeme, behind, rfl, hname, hbehind⟩ := List.map_eq_cons_iff.mp hbehind
  obtain ⟨opening, behind, rfl, hopening, hbehind⟩ := List.map_eq_cons_iff.mp hbehind
  obtain ⟨a, last, rfl, ha, hlast⟩ := List.map_eq_append_iff.mp hbehind
  obtain ⟨closing, rfl, hclosing⟩ := List.map_eq_singleton_iff.mp hlast
  obtain ⟨parsed, hderives, hbare⟩ := htarget l hl
  cases args with
  | nil =>
    have hempty : a = [] := by
      simpa [Tree.tokensAll] using ha
    subst hempty
    refine ⟨_, .emptyCall hderives hdot hname hopening hclosing, ?_⟩
    rw [Tree.bare, Tree.bare, hbare]
  | cons arg args =>
    obtain ⟨more, hmore, hbares⟩ := parsesAs_arguments hargs a ha
    refine ⟨_, .call hderives hdot hname hopening hmore hclosing, ?_⟩
    rw [Tree.bare, Tree.bare, hbare, hbares]

/-! ## Trees -/

/-- How tightly a printed tree binds: accesses, literals, names and parentheses bind more tightly
than operators in front. -/
def Tree.printedLevel (tree : Tree) : Nat :=
  if tree.isUnary then 8 else 9

theorem Tree.le_printedLevel (tree : Tree) : 8 ≤ tree.printedLevel := by
  unfold printedLevel
  split <;> decide

theorem Tree.printedLevel_le (tree : Tree) : tree.printedLevel ≤ 10 := by
  unfold printedLevel
  split <;> decide

/-- The tokens of a legible tree derive it, up to groups and spans. -/
theorem Tree.parsesAs {tree : Tree} (h : tree.Legible) :
    ParsesAs tree.printedLevel tree.tokens tree := by
  induction tree using Tree.partsInduction with
  | step tree ih =>
    have hparts : ∀ part ∈ tree.parts, ParsesAs 8 part.tokens part := fun part hpart =>
      (ih part hpart (h.parts part hpart)).loosenTo part.le_printedLevel
    have hreceiver : ∀ part ∈ tree.parts, part.isUnary = false → ParsesAs 9 part.tokens part := by
      intro part hpart hunary
      have hpart := ih part hpart (h.parts part hpart)
      unfold printedLevel at hpart
      rwa [hunary] at hpart
    cases tree with
    | literal span value => exact (parsesAs_literal span value).loosenTo (printedLevel_le _)
    | ident span name => exact (parsesAs_ident span name).loosenTo (printedLevel_le _)
    | field span receiver name =>
      exact parsesAs_field (hreceiver receiver List.mem_cons_self h.here.1) span name
    | call span target name args =>
      exact parsesAs_call (hreceiver target List.mem_cons_self h.here.1)
        (fun arg harg => hparts arg (List.mem_cons_of_mem _ harg)) span name
    | unary span op operand => exact parsesAs_unary (hparts operand List.mem_cons_self) span op
    | binary span op lhs rhs =>
      have hoperator := parsesAs_operator (.binary op) (hparts lhs (by simp [parts]))
        (hparts rhs (by simp [parts]))
      exact (parsesAs_inParens hoperator).loosenTo (printedLevel_le _)
    | ternary span predicate ifTrue ifFalse =>
      have hternary := parsesAs_ternary (hparts predicate (by simp [parts]))
        (hparts ifTrue (by simp [parts])) (hparts ifFalse (by simp [parts])) span
      exact (parsesAs_inParens hternary).loosenTo (printedLevel_le _)
    | coalesce span lhs rhs =>
      have hoperator := parsesAs_operator .coalesce (hparts lhs (by simp [parts]))
        (hparts rhs (by simp [parts]))
      exact (parsesAs_inParens hoperator).loosenTo (printedLevel_le _)
    | group span inner => exact ih inner List.mem_cons_self (h.parts inner List.mem_cons_self)

end

/-- A printed tree parses back: there is no error, and the parsed tree is the printed one without
its groups and spans. -/
theorem parse_render {tree : Tree} (h : tree.Legible) :
    (parse tree.render).lexErrors = [] ∧
      ∃ parsed, (parse tree.render).result = .ok parsed ∧ parsed.bare = tree.bare := by
  obtain ⟨htokens, herrors⟩ := (Tree.spells h).lex_eq trivial
  obtain ⟨parsed, hderives, hbare⟩ :=
    (Tree.parsesAs h).loosenTo (Nat.zero_le _) (lex tree.render).tokens htokens
  exact ⟨herrors, parsed, hderives.parseTokens_eq _, hbare⟩

/-- The tree of `(!(a ?? "q\"\n").f(1.5, -7) ? '\'' : null)`. -/
def sampleTree : Tree :=
  .ternary default
    (.unary default .not
      (.call default
        (.group default (.coalesce default (.ident default "a") (.literal default (.text "q\"\n"))))
        ⟨"f", default⟩
        [.literal default (.float ⟨0x3ff8000000000000, by decide⟩),
          .unary default .neg (.literal default (.int 7))]))
    (.literal default (.char '\''))
    (.literal default .null)

theorem legible_sampleTree : sampleTree.Legible := by
  simp only [sampleTree, Tree.legible_ternary, Tree.legible_unary, Tree.legible_call,
    Tree.legible_group, Tree.legible_coalesce, Tree.legible_ident, Tree.legible_literal,
    lexesAsName_iff, List.forall_mem_cons, List.not_mem_nil, false_implies, implies_true]
  decide +kernel

theorem parse_render_sampleTree : sampleTree.Legible ∧ (parse sampleTree.render).lexErrors = [] ∧
    ∃ parsed, (parse sampleTree.render).result = .ok parsed ∧ parsed.bare = sampleTree.bare :=
  ⟨legible_sampleTree, parse_render legible_sampleTree⟩

end BindingPlan
