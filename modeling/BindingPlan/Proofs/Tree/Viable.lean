import BindingPlan.Proofs.Tree.MapSpans

/-!
# The first impossible token

Whatever is open can be closed: behind every state of the parser some tokens lead to the end of a
tree. So the tokens that were read are always the beginning of an expression, and where a token
cannot be read, no expression goes on with it.

Main results:

* `ParseState.exists_ending`: every state has an ending.
* `viable_iff`: the tokens that can be read are the beginnings of expressions.
* `syntaxError_at_first_impossible`: a syntax error is at the first token that goes on with no
  expression, or at the end of a source that is a beginning only.
-/

namespace BindingPlan

/-- The grammar derives the tokens, whatever their spans. -/
def Derivable (tokens : List Token) : Prop :=
  ∃ lexemes tree, lexemes.map Lexeme.token = tokens ∧ Derives 0 lexemes tree

/-- The tokens are the beginning of an expression. -/
def Viable (tokens : List Token) : Prop :=
  ∃ more, Derivable (tokens ++ more)

theorem Derivable.viable {tokens : List Token} (h : Derivable tokens) : Viable tokens :=
  ⟨[], (List.append_nil tokens).symm ▸ h⟩

/-! ## Endings -/

namespace ParseState

/-- Some more tokens complete a tree. -/
def Ends (state : ParseState) : Prop :=
  ∃ more last tree, state.run? more = some last ∧ last.finish? = some tree

theorem Ends.of_step {state next : ParseState} (h : next.Ends) (lexeme : Lexeme)
    (hstep : state.step? lexeme = some next) : state.Ends := by
  obtain ⟨more, last, tree, hrun, hfinish⟩ := h
  refine ⟨lexeme :: more, last, tree, ?_, hfinish⟩
  rw [run?, hstep, Option.bind_some, hrun]

/-- Behind an operand, the open constructs are closed from the innermost one on: those that end with
the operand need no token, a choice needs its other value, and parentheses are closed. -/
theorem ends_of_pending (stack : List Frame) {state : ParseState} {operand last : Tree}
    {rest : List Frame} (hpending : state.pending? = some (last, rest))
    (hclosed : reduceAll rest last = reduceAll stack operand) : state.Ends := by
  induction stack generalizing state operand last rest with
  | nil => exact ⟨[], state, operand, rfl, finish?_eq_some_iff.mpr ⟨last, rest, hpending, hclosed⟩⟩
  | cons frame stack ih =>
    cases frame with
    | unary op start => exact ih hpending hclosed
    | operator op lhs => exact ih hpending hclosed
    | ifFalse predicate value => exact ih hpending hclosed
    | ifTrue predicate =>
      have hname : (complete (.ident default "") (.ifFalse predicate operand :: stack)).Ends :=
        ih rfl rfl
      have hvalue : (ParseState.operand (.ifFalse predicate operand :: stack)).Ends :=
        hname.of_step ⟨.name "", default⟩ rfl
      refine hvalue.of_step ⟨.mark .colon, default⟩ ?_
      rw [step?_of_pending hpending (by decide), continue?_colon rfl hclosed]
    | group start =>
      have hcomplete : (complete (.group (start.to default) operand) stack).Ends := ih rfl rfl
      refine hcomplete.of_step ⟨.mark .closeParen, default⟩ ?_
      rw [step?_of_pending hpending (by decide), continue?_closeGroup rfl hclosed]
    | arguments target name done =>
      have hcomplete : (complete (.call (target.span.to default) target name (done ++ [operand]))
        stack).Ends := ih rfl rfl
      refine hcomplete.of_step ⟨.mark .closeParen, default⟩ ?_
      rw [step?_of_pending hpending (by decide), continue?_closeCall rfl hclosed]

/-- Every state has an ending. -/
theorem exists_ending (state : ParseState) : state.Ends := by
  cases state with
  | operand stack =>
    have hname : (complete (.ident default "") stack).Ends := ends_of_pending stack rfl rfl
    exact hname.of_step ⟨.name "", default⟩ rfl
  | firstArgument target name stack =>
    have hcall : (complete (.call (target.span.to default) target name []) stack).Ends :=
      ends_of_pending stack rfl rfl
    exact hcall.of_step ⟨.mark .closeParen, default⟩ rfl
  | member receiver stack =>
    have hnamed : (named receiver ⟨"", default⟩ stack).Ends := ends_of_pending stack rfl rfl
    exact hnamed.of_step ⟨.name "", default⟩ rfl
  | named receiver name stack => exact ends_of_pending stack rfl rfl
  | complete operand stack => exact ends_of_pending stack rfl rfl

end ParseState

/-! ## Beginnings -/

/-- The tokens that can be read are the beginnings of expressions. -/
theorem viable_iff {lexemes : List Lexeme} :
    Viable (lexemes.map Lexeme.token) ↔ ∃ state, ParseState.start.run? lexemes = some state := by
  constructor
  · rintro ⟨more, whole, tree, htokens, hderives⟩
    obtain ⟨last, -, -, hrun, -, -⟩ := parseFrom_eq_ok_iff.mp (hderives.parseTokens_eq 0)
    have hwhole : whole.map Lexeme.token =
        (lexemes ++ more.map fun token => Lexeme.mk token default).map Lexeme.token := by
      rw [htokens, List.map_append, List.map_map]
      exact congrArg _ (List.map_id more).symm
    -- the derivation has spans of its own, so its tokens are read with those of the source
    have hread := ParseState.isSome_run?_of_tokens .start hwhole
    rw [hrun, ParseState.run?_append] at hread
    obtain ⟨read, hread⟩ := Option.isSome_iff_exists.mp hread.symm
    obtain ⟨state, hstate, -⟩ := Option.bind_eq_some_iff.mp hread
    exact ⟨state, hstate⟩
  · rintro ⟨state, hrun⟩
    obtain ⟨more, last, tree, hmore, hfinish⟩ := state.exists_ending
    obtain ⟨operand, stack, hpending, hclosed⟩ := ParseState.finish?_eq_some_iff.mp hfinish
    have hwhole : ParseState.start.run? (lexemes ++ more) = some last := by
      rw [ParseState.run?_append, hrun, Option.bind_some, hmore]
    have hparsed : parseTokens 0 (lexemes ++ more) = .ok tree :=
      parseFrom_eq_ok_iff.mpr ⟨last, operand, stack, hwhole, hpending, hclosed⟩
    exact ⟨more.map Lexeme.token, lexemes ++ more, tree, List.map_append,
      parseTokens_eq_ok_iff.mp hparsed⟩

/-- An error is at the first token that cannot be read, or at the end. -/
theorem error_of_parseFrom {stop : Nat} {state : ParseState} {lexemes : List Lexeme}
    {error : SyntaxError} (h : parseFrom stop state lexemes = .error error) :
    (∃ before lexeme after last, lexemes = before ++ lexeme :: after ∧
      state.run? before = some last ∧ last.step? lexeme = none ∧
        error = ⟨some lexeme.token, last.expected, lexeme.span⟩) ∨
    ∃ last, state.run? lexemes = some last ∧ error = ⟨none, last.expected, ⟨stop, stop⟩⟩ := by
  induction lexemes generalizing state with
  | nil =>
    unfold parseFrom at h
    split at h
    · cases h
    · exact .inr ⟨state, rfl, (Except.error.inj h).symm⟩
  | cons lexeme lexemes ih =>
    unfold parseFrom at h
    split at h
    · next next hstep =>
      obtain ⟨before, other, after, last, rfl, hrun, hnone, rfl⟩ | ⟨last, hrun, rfl⟩ := ih h
      · refine .inl ⟨lexeme :: before, other, after, last, rfl, ?_, hnone, rfl⟩
        rw [ParseState.run?, hstep, Option.bind_some, hrun]
      · refine .inr ⟨last, ?_, rfl⟩
        rw [ParseState.run?, hstep, Option.bind_some, hrun]
    · next hstep =>
      exact .inl ⟨[], lexeme, lexemes, state, rfl, rfl, hstep, (Except.error.inj h).symm⟩

/-- The error is at the first of the tokens that no expression has behind those in front of it, or
at the end of the source if the tokens are the beginning of an expression. -/
def SyntaxError.AtFirstImpossible (error : SyntaxError) (stop : Nat) (lexemes : List Lexeme) :
    Prop :=
  (∃ before lexeme after, lexemes = before ++ lexeme :: after ∧
    (∀ front, front <+: before → Viable (front.map Lexeme.token)) ∧
    ¬ Viable ((before ++ [lexeme]).map Lexeme.token) ∧
    error.span = lexeme.span ∧ error.found = some lexeme.token) ∨
  Viable (lexemes.map Lexeme.token) ∧ error.span = ⟨stop, stop⟩ ∧ error.found = none

/-- A source whose tokens are not derived has one syntax error, at the first impossible token. -/
theorem syntaxError_at_first_impossible {source : String}
    (h : ¬ Derivable ((lex source).tokens.map Lexeme.token)) :
    ∃ error, (parse source).result = .error error ∧
      error.AtFirstImpossible (byteLength source.toList) (lex source).tokens := by
  obtain ⟨error, herror⟩ := exists_error_iff.mpr fun tree htree =>
    h ⟨_, tree, rfl, parseTokens_eq_ok_iff.mp htree⟩
  refine ⟨error, herror, ?_⟩
  obtain ⟨before, lexeme, after, last, htokens, hrun, hnone, rfl⟩ | ⟨last, hrun, rfl⟩ :=
    error_of_parseFrom herror
  · refine .inl ⟨before, lexeme, after, htokens, ?_, ?_, rfl, rfl⟩
    · rintro front ⟨between, rfl⟩
      rw [ParseState.run?_append] at hrun
      obtain ⟨state, hstate, -⟩ := Option.bind_eq_some_iff.mp hrun
      exact viable_iff.mpr ⟨state, hstate⟩
    · rw [viable_iff, ParseState.run?_append, hrun]
      simp [ParseState.run?, hnone]
  · exact .inr ⟨viable_iff.mpr ⟨last, hrun⟩, rfl, rfl⟩

/-- An argument is missing behind a comma, in a choice that is not complete either. -/
theorem syntaxError_at_missing_argument :
    ¬ Derivable ((lex "a ? b.f(c, ) ?").tokens.map Lexeme.token) ∧
    ∃ error, (parse "a ? b.f(c, ) ?").result = .error error ∧
      error.AtFirstImpossible 14 (lex "a ? b.f(c, ) ?").tokens := by
  have hunread : (ParseState.start.run? (lex "a ? b.f(c, ) ?").tokens).isNone := by decide +kernel
  have hderivable : ¬ Derivable ((lex "a ? b.f(c, ) ?").tokens.map Lexeme.token) := fun h => by
    obtain ⟨state, hstate⟩ := viable_iff.mp h.viable
    rw [hstate] at hunread
    cases hunread
  exact ⟨hderivable, syntaxError_at_first_impossible hderivable⟩

end BindingPlan
