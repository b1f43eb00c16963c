import BindingPlan.Binding.Binder
import BindingPlan.Proofs.Tree.Descent
import BindingPlan.Proofs.Tree.Names

/-!
# What the parser recognises

Each frame of the parser's stack is an unfinished rule of the grammar, and the frames divide the
tokens that were read among them. `ReadTo` says so of a state; a token keeps it, so at the end of
the source the returned tree is derived.

Main results:

* `ReadTo.step`, `ReadTo.run`: a state is about the tokens that were read.
* `parseTokens_eq_ok_iff`: the parser returns the trees that the grammar derives.
* `parse_decides`: parsing a source decides the grammar, which is unambiguous.
-/

namespace BindingPlan

/-! ## Open constructs -/

/-- The tokens begin a call, up to its opening parenthesis. -/
inductive CallHead : Tree → Name → List Lexeme → Prop
  | intro {l : List Lexeme} {dot name opening : Lexeme} {text : String} {target : Tree} :
    Derives 9 l target → dot.token = .mark .dot → name.token = .name text →
      opening.token = .mark .openParen →
      CallHead target ⟨text, name.span⟩ (l ++ [dot, name, opening])

/-- The tokens open the constructs of the stack, each up to an operand that is still missing. -/
inductive Opens : List Frame → List Lexeme → Prop
  | bottom : Opens [] []
  | unary {stack : List Frame} {before : List Lexeme} {sign : Lexeme} {op : UnaryOp} :
    Opens stack before → sign.token.unaryOp? = some op →
      Opens (.unary op sign.span :: stack) (before ++ [sign])
  | operator {stack : List Frame} {before l : List Lexeme} {sign : Lexeme} {op : InfixOp}
      {lhs : Tree} :
    Opens stack before → Fits (op.level + 1) stack → Derives (op.level + 1) l lhs →
      sign.token.infixOp? = some op →
      Opens (.operator op lhs :: stack) (before ++ (l ++ [sign]))
  | ifTrue {stack : List Frame} {before p : List Lexeme} {question : Lexeme} {predicate : Tree} :
    Opens stack before → Fits 1 stack → Derives 1 p predicate →
      question.token = .mark .question →
      Opens (.ifTrue predicate :: stack) (before ++ (p ++ [question]))
  | ifFalse {stack : List Frame} {before p t : List Lexeme} {question colon : Lexeme}
      {predicate ifTrue : Tree} :
    Opens stack before → Fits 1 stack → Derives 1 p predicate →
      question.token = .mark .question → Derives 0 t ifTrue → colon.token = .mark .colon →
      Opens (.ifFalse predicate ifTrue :: stack) (before ++ (p ++ question :: (t ++ [colon])))
  | group {stack : List Frame} {before : List Lexeme} {opening : Lexeme} :
    Opens stack before → opening.token = .mark .openParen →
      Opens (.group opening.span :: stack) (before ++ [opening])
  | firstArgument {stack : List Frame} {before head : List Lexeme} {target : Tree} {name : Name} :
    Opens stack before → CallHead target name head →
      Opens (.arguments target name [] :: stack) (before ++ head)
  | nextArgument {stack : List Frame} {before head a : List Lexeme} {comma : Lexeme}
      {target : Tree} {name : Name} {args : List Tree} :
    Opens stack before → CallHead target name head → DerivesArgs a args →
      comma.token = .mark .comma →
      Opens (.arguments target name args :: stack) (before ++ (head ++ (a ++ [comma])))

/-- The tokens open the constructs of the stack and end with a construct of the level, which none of
them takes apart. -/
def Stands (level : Nat) (tree : Tree) (stack : List Frame) (read : List Lexeme) : Prop :=
  ∃ before l, read = before ++ l ∧ Opens stack before ∧ Derives level l tree ∧ Fits level stack

section

variable {level : Nat} {tree operand : Tree} {stack : List Frame} {read before l : List Lexeme}
  {lexeme closing : Lexeme}

theorem Stands.loosenTo {looser : Nat} (h : Stands level tree stack read) (hle : looser ≤ level)
    (hfits : Fits looser stack) : Stands looser tree stack read := by
  obtain ⟨before, l, rfl, hopens, hderives, -⟩ := h
  exact ⟨before, l, rfl, hopens, hderives.loosenTo hle, hfits⟩

/-- A member, a literal, a name, or a group stands over every stack. -/
theorem Opens.stands (hopens : Opens stack before) (hderives : Derives 9 l tree) :
    Stands 9 tree stack (before ++ l) :=
  ⟨before, l, rfl, hopens, hderives, fits_of_unary (by decide) stack⟩

theorem Stands.closeUnary {op : UnaryOp} {start : Span}
    (h : Stands level operand (.unary op start :: stack) read) :
    Stands 8 (.unary (start.to operand.span) op operand) stack read := by
  obtain ⟨before, l, rfl, hopens, hderives, hfits⟩ := h
  cases hopens with
  | unary hopens hsign =>
    refine ⟨_, _, List.append_assoc .., hopens, ?_, fits_of_unary (Nat.le_refl 8) stack⟩
    obtain ⟨mark, hmark, hop⟩ := Token.unaryOp?_eq_some_iff.mp hsign
    exact .unary hop hmark (hderives.loosenTo hfits)

theorem Stands.closeOperator {op : InfixOp} {lhs : Tree}
    (h : Stands level operand (.operator op lhs :: stack) read) :
    Stands (op.level + 1) (op.join lhs operand) stack read := by
  obtain ⟨before, l, rfl, hopens, hderives, hfits⟩ := h
  cases hopens with
  | operator hopens hfits' hlhs hsign =>
    refine ⟨_, _, ?_, hopens, .operator hlhs hsign (hderives.loosenTo hfits), hfits'⟩
    simp only [List.append_assoc, List.singleton_append]

/-- What no operator takes apart, no choice takes apart. -/
theorem fits_zero (h : Fits 1 stack) : Fits 0 stack := by
  unfold Fits at *
  split at h <;> omega

theorem Stands.closeIfFalse {predicate ifTrue : Tree}
    (h : Stands level operand (.ifFalse predicate ifTrue :: stack) read) :
    Stands 0 (.ternary (predicate.span.to operand.span) predicate ifTrue operand) stack read := by
  obtain ⟨before, l, rfl, hopens, hderives, -⟩ := h
  cases hopens with
  | ifFalse hopens hfits hp hquestion ht hcolon =>
    refine ⟨_, _, ?_, hopens,
      .ternary hp hquestion ht hcolon (hderives.loosenTo (Nat.zero_le level)), fits_zero hfits⟩
    simp only [List.append_assoc, List.cons_append, List.nil_append]

theorem reduceTo_stands {k : Nat} (hk : k ≤ 6) (h : Stands level operand stack read)
    (hlevel : k + 1 ≤ level) :
    Stands (k + 1) (reduceTo k stack operand).1 (reduceTo k stack operand).2 read := by
  fun_induction reduceTo k stack operand generalizing level with
  | case1 op start stack operand ih => exact ih h.closeUnary (by omega)
  | case2 op lhs stack operand hop ih => exact ih h.closeOperator (by omega)
  | case3 op lhs stack operand hop =>
    have hfits : op.level + 1 < k + 1 := by omega
    exact h.loosenTo hlevel hfits
  | case4 stack operand hunary hoperator =>
    refine h.loosenTo hlevel ?_
    unfold Fits
    split
    · exact absurd rfl (hunary _ _ _)
    · exact absurd rfl (hoperator _ _ _)
    · trivial

theorem reduceAll_stands (h : Stands level operand stack read) :
    Stands 0 (reduceAll stack operand).1 (reduceAll stack operand).2 read := by
  fun_induction reduceAll stack operand generalizing level with
  | case1 op start stack operand ih => exact ih h.closeUnary
  | case2 op lhs stack operand ih => exact ih h.closeOperator
  | case3 predicate ifTrue stack operand ih => exact ih h.closeIfFalse
  | case4 stack operand hunary hoperator hifFalse =>
    refine h.loosenTo (Nat.zero_le level) ?_
    unfold Fits
    split
    · exact absurd rfl (hunary _ _ _)
    · exact absurd rfl (hoperator _ _ _)
    · trivial

/-! ## Calls -/

variable {target arg : Tree} {name : Name} {args : List Tree} {head a : List Lexeme}

theorem CallHead.derives_call (h : CallHead target name head) (hargs : DerivesArgs a args)
    (hclosing : closing.token = .mark .closeParen) :
    Derives 9 (head ++ (a ++ [closing]))
      (.call (target.span.to closing.span) target name args) := by
  obtain ⟨htarget, hdot, hname, hopening⟩ := h
  rw [List.append_assoc]
  exact .call htarget hdot hname hopening hargs hclosing

theorem CallHead.derives_emptyCall (h : CallHead target name head)
    (hclosing : closing.token = .mark .closeParen) :
    Derives 9 (head ++ [closing]) (.call (target.span.to closing.span) target name []) := by
  obtain ⟨htarget, hdot, hname, hopening⟩ := h
  rw [List.append_assoc]
  exact .emptyCall htarget hdot hname hopening hclosing

/-- The arguments of a call up to one that is complete. -/
theorem Stands.arguments (h : Stands level arg (.arguments target name args :: stack) read) :
    ∃ before head a, read = before ++ (head ++ a) ∧ Opens stack before ∧
      CallHead target name head ∧ DerivesArgs a (args ++ [arg]) := by
  obtain ⟨before, l, rfl, hopens, hderives, -⟩ := h
  have harg := hderives.loosenTo (Nat.zero_le level)
  cases hopens with
  | firstArgument hopens hhead =>
    exact ⟨_, _, _, List.append_assoc .., hopens, hhead, .first harg⟩
  | nextArgument hopens hhead hargs hcomma =>
    refine ⟨_, _, _, ?_, hopens, hhead, .next hargs hcomma harg⟩
    simp only [List.append_assoc, List.cons_append, List.nil_append]

theorem Stands.closeCall (h : Stands level arg (.arguments target name args :: stack) read)
    (hclosing : closing.token = .mark .closeParen) :
    Stands 9 (.call (target.span.to closing.span) target name (args ++ [arg])) stack
      (read ++ [closing]) := by
  obtain ⟨before, head, a, rfl, hopens, hhead, hargs⟩ := h.arguments
  simpa only [List.append_assoc] using hopens.stands (hhead.derives_call hargs hclosing)

theorem Stands.closeGroup {opening : Span}
    (h : Stands level operand (.group opening :: stack) read)
    (hclosing : closing.token = .mark .closeParen) :
    Stands 9 (.group (opening.to closing.span) operand) stack (read ++ [closing]) := by
  obtain ⟨before, l, rfl, hopens, hderives, -⟩ := h
  cases hopens with
  | group hopens hopening =>
    have hinner := hderives.loosenTo (Nat.zero_le level)
    simpa only [List.append_assoc, List.cons_append, List.nil_append] using
      hopens.stands (Derives.group hopening hinner hclosing).loosen

/-! ## States -/

/-- What a state says about the tokens that were read. -/
def ReadTo (read : List Lexeme) : ParseState → Prop
  | .operand stack => Opens stack read
  | .firstArgument target name stack => Opens (.arguments target name [] :: stack) read
  | .member receiver stack =>
    ∃ before l dot, read = before ++ (l ++ [dot]) ∧ Opens stack before ∧ Derives 9 l receiver ∧
      dot.token = .mark .dot
  | .named receiver name stack =>
    ∃ before l dot lexeme text, read = before ++ (l ++ [dot, lexeme]) ∧ Opens stack before ∧
      Derives 9 l receiver ∧ dot.token = .mark .dot ∧ lexeme.token = .name text ∧
      name = ⟨text, lexeme.span⟩
  | .complete operand stack => Stands 9 operand stack read

theorem readTo_startOperand? {next : ParseState} (h : Opens stack read)
    (hnext : startOperand? lexeme stack = some next) : ReadTo (read ++ [lexeme]) next := by
  unfold startOperand? at hnext
  split at hnext
  · next value hvalue =>
    cases hnext
    exact h.stands (Derives.literal (literalToken_iff.mpr hvalue)).loosen
  · split at hnext
    · next text htext =>
      cases hnext
      exact h.stands (Derives.ident htext).loosen
    · next hopening =>
      cases hnext
      exact .group h hopening
    · next mark _ hmark =>
      obtain ⟨op, hop, rfl⟩ := Option.map_eq_some_iff.mp hnext
      have hsign : lexeme.token.unaryOp? = some op := by
        rw [hmark]
        exact hop
      exact .unary h hsign
    · cases hnext

theorem readTo_continue? {next : ParseState} (h : Stands 9 operand stack read)
    (hnext : continue? lexeme operand stack = some next) : ReadTo (read ++ [lexeme]) next := by
  have hall := reduceAll_stands h
  unfold continue? at hnext
  split at hnext
  · next hdot =>
    cases hnext
    obtain ⟨before, l, rfl, hopens, hderives, -⟩ := h
    exact ⟨before, l, lexeme, List.append_assoc .., hopens, hderives, hdot⟩
  · next hquestion =>
    cases hnext
    obtain ⟨before, p, rfl, hopens, hp, hfits⟩ := reduceTo_stands (Nat.zero_le 6) h (by decide)
    simpa only [ReadTo, List.append_assoc] using Opens.ifTrue hopens hfits hp hquestion
  · next hcolon =>
    split at hnext
    · next hclosed =>
      cases hnext
      rw [hclosed] at hall
      obtain ⟨before, t, hread, hopens, ht, -⟩ := hall
      cases hopens with
      | ifTrue hopens hfits hp hquestion =>
        simpa only [ReadTo, hread, List.append_assoc, List.cons_append, List.nil_append] using
          Opens.ifFalse hopens hfits hp hquestion ht hcolon
    · cases hnext
  · next hcomma =>
    split at hnext
    · next hclosed =>
      cases hnext
      rw [hclosed] at hall
      obtain ⟨before, head, a, hread, hopens, hhead, hargs⟩ := hall.arguments
      simpa only [ReadTo, hread, List.append_assoc] using
        Opens.nextArgument hopens hhead hargs hcomma
    · cases hnext
  · next hclosing =>
    split at hnext
    · next hclosed =>
      cases hnext
      rw [hclosed] at hall
      exact hall.closeGroup hclosing
    · next hclosed =>
      cases hnext
      rw [hclosed] at hall
      exact hall.closeCall hclosing
    · cases hnext
  · next mark _ _ _ _ _ hmark =>
    obtain ⟨op, hop, rfl⟩ := Option.map_eq_some_iff.mp hnext
    have hsign : lexeme.token.infixOp? = some op := by
      rw [hmark]
      exact hop
    have hlevel := op.level_le
    obtain ⟨before, l, rfl, hopens, hlhs, hfits⟩ := reduceTo_stands hlevel h (by omega)
    simpa only [ReadTo, List.append_assoc] using Opens.operator hopens hfits hlhs hsign
  · cases hnext

theorem ReadTo.stands {state : ParseState} (h : ReadTo read state)
    (hpending : state.pending? = some (operand, stack)) : Stands 9 operand stack read := by
  unfold ParseState.pending? at hpending
  split at hpending
  · cases hpending
    obtain ⟨before, l, dot, lexeme, text, rfl, hopens, hderives, hdot, hlexeme, rfl⟩ := h
    exact hopens.stands (.field hderives hdot hlexeme)
  · cases hpending
    exact h
  · cases hpending

/-- A token that is read keeps what the state says. -/
theorem ReadTo.step {state next : ParseState} (h : ReadTo read state)
    (hstep : state.step? lexeme = some next) : ReadTo (read ++ [lexeme]) next := by
  cases state with
  | operand stack => exact readTo_startOperand? h hstep
  | firstArgument target name stack =>
    unfold ParseState.step? at hstep
    dsimp only at hstep
    split at hstep
    · next hclosing =>
      cases hstep
      cases h with
      | firstArgument hopens hhead =>
        simpa only [ReadTo, List.append_assoc] using
          hopens.stands (hhead.derives_emptyCall hclosing)
      | nextArgument hopens hhead hargs hcomma => exact absurd rfl hargs.ne_nil
    · exact readTo_startOperand? h hstep
  | member receiver stack =>
    unfold ParseState.step? at hstep
    dsimp only at hstep
    split at hstep
    · next text htext =>
      cases hstep
      obtain ⟨before, l, dot, rfl, hopens, hderives, hdot⟩ := h
      exact ⟨before, l, dot, lexeme, text, by simp, hopens, hderives, hdot, htext, rfl⟩
    · cases hstep
  | named receiver name stack =>
    unfold ParseState.step? at hstep
    dsimp only at hstep
    split at hstep
    · next hopening =>
      cases hstep
      obtain ⟨before, l, dot, lexeme, text, rfl, hopens, hderives, hdot, hlexeme, rfl⟩ := h
      simpa only [ReadTo, List.append_assoc, List.cons_append, List.nil_append] using
        Opens.firstArgument hopens (.intro hderives hdot hlexeme hopening)
    · exact readTo_continue? (h.stands rfl) hstep
  | complete operand stack => exact readTo_continue? h hstep

theorem ReadTo.run {state last : ParseState} {lexemes : List Lexeme} (h : ReadTo read state)
    (hrun : state.run? lexemes = some last) : ReadTo (read ++ lexemes) last := by
  induction lexemes generalizing state read with
  | nil =>
    cases hrun
    rwa [List.append_nil]
  | cons lexeme lexemes ih =>
    obtain ⟨next, hstep, hrest⟩ := Option.bind_eq_some_iff.mp hrun
    simpa only [List.append_assoc, List.cons_append, List.nil_append] using ih (h.step hstep) hrest

end

/-- The parser returns the trees that the grammar derives. -/
theorem parseTokens_eq_ok_iff {stop : Nat} {lexemes : List Lexeme} {tree : Tree} :
    parseTokens stop lexemes = .ok tree ↔ Derives 0 lexemes tree := by
  refine ⟨fun h => ?_, fun h => h.parseTokens_eq stop⟩
  obtain ⟨last, operand, stack, hrun, hpending, hclosed⟩ := parseFrom_eq_ok_iff.mp h
  have hstart : ReadTo [] .start := Opens.bottom
  have hall := reduceAll_stands ((hstart.run hrun).stands hpending)
  rw [hclosed] at hall
  obtain ⟨before, l, hread, hopens, hderives, -⟩ := hall
  cases hopens with
  | bottom => rwa [show lexemes = l from hread]

/-- Tokens have one tree at most. -/
theorem Derives.unique {level level' : Nat} {lexemes : List Lexeme} {tree tree' : Tree}
    (h : Derives level lexemes tree) (h' : Derives level' lexemes tree') : tree = tree' :=
  Except.ok.inj (((h.loosenTo (Nat.zero_le level)).parseTokens_eq 0).symm.trans
    ((h'.loosenTo (Nat.zero_le level')).parseTokens_eq 0))

theorem exists_error_iff {ε α : Type} {result : Except ε α} :
    (∃ e, result = .error e) ↔ ∀ value, result ≠ .ok value := by
  cases result <;> simp

/-- Parsing a source decides the grammar: it returns the tree of the tokens, which is unique, and it
reports a syntax error if they have none. Parsers that are tried one after the other come to the
same tree, and to the same error at the furthest of their failures. Errors of the lexer are reported
apart, and binding reports them first. -/
theorem parse_decides (source : String) :
    (∀ tree, (parse source).result = .ok tree ↔ Derives 0 (lex source).tokens tree) ∧
    (∀ tree tree', Derives 0 (lex source).tokens tree → Derives 0 (lex source).tokens tree' →
      tree = tree') ∧
    ((∃ e, (parse source).result = .error e) ↔
      ∀ tree, ¬ Derives 0 (lex source).tokens tree) ∧
    descend (byteLength source.toList) (lex source).tokens = (parse source).result ∧
    (parse source).lexErrors = (lex source).errors ∧
    (∀ classes binder e rest, (lex source).errors = e :: rest →
      (BinderM.bindSource classes source).run.run binder = (.error (.ofLexError e), binder)) ∧
    ∀ classes binder e, (lex source).errors = [] → (parse source).result = .error e →
      (BinderM.bindSource classes source).run.run binder = (.error (.ofSyntaxError e), binder) := by
  have htree : ∀ tree, (parse source).result = .ok tree ↔ Derives 0 (lex source).tokens tree :=
    fun tree => parseTokens_eq_ok_iff
  refine ⟨htree, fun tree tree' h h' => h.unique h', ?_, descend_eq_parseTokens .., rfl, ?_, ?_⟩
  · rw [exists_error_iff]
    exact forall_congr' fun tree => not_congr (htree tree)
  · intro classes binder e rest herrors
    have hlex : (parse source).lexErrors = e :: rest := herrors
    simp only [BinderM.bindSource, hlex]
    rfl
  · intro classes binder e herrors hresult
    have hlex : (parse source).lexErrors = [] := herrors
    simp only [BinderM.bindSource, hlex, hresult]
    rfl

end BindingPlan
