import BindingPlan.Proofs.Tree.Acceptance
import BindingPlan.Proofs.Tree.Choice

/-!
# Where ordered choice stops

A parser that succeeds without an attempt that went too far has moved the state over its tokens, and
the first token behind does not go on with what was read. If an attempt went further than what was
read in the end, then it failed at the first impossible token, and the token where it began cannot
be read in another way; so everything around it fails there as well, and the furthest failure stays
where it is. `FollowsStates` says so of an operand, and `Completes` of what leaves no choice.

Main definitions:

* `Jams`: a failure at the first impossible token.
* `ParseState.Stops`, `Broken`: the token behind an operand does not go on with it, or it began an
  attempt to do so.
* `Completes`, `FollowsStates`: parsers that follow the states.

Main results:

* `Jams.parseFrom_eq`: the failure is the error of the automaton.
* `Jams.of_stops`: what does not go on with an operand nor closes it is impossible.
* `FollowsStates.of_run`, `Completes.of_run`: what was read in front.
-/

namespace BindingPlan

open TokenParser

/-- The tokens start with one that has a property, or not. -/
theorem exists_cons_or_not (p : Lexeme → Prop) (lexemes : List Lexeme) :
    (∃ lexeme rest, lexemes = lexeme :: rest ∧ p lexeme) ∨
      ∀ lexeme ∈ lexemes.head?, ¬ p lexeme := by
  cases lexemes with
  | nil => exact .inr fun lexeme hlexeme => by cases hlexeme
  | cons lexeme rest =>
    by_cases hp : p lexeme
    · exact .inl ⟨lexeme, rest, rfl, hp⟩
    · refine .inr fun other hother => ?_
      cases hother
      exact hp

/-! ## Impossible tokens -/

/-- The first of the tokens is impossible, or there are none and an operand is open. -/
def ParseState.Stuck (state : ParseState) : List Lexeme → Prop
  | [] => state.finish? = none
  | lexeme :: _ => state.step? lexeme = none

/-- The failure is at the first impossible token, with what could stand there. -/
def Jams (start : ParseState) (lexemes : List Lexeme) (failure : ParseFailure) : Prop :=
  ∃ used last, lexemes = used ++ failure.rest ∧ start.run? used = some last ∧
    last.Stuck failure.rest ∧ failure.expected = last.expected

section

variable {start state next : ParseState} {lexemes used rest : List Lexeme} {lexeme : Lexeme}
  {failure : ParseFailure}

theorem Jams.of_stuck (h : state.Stuck rest) : Jams state rest ⟨rest, state.expected⟩ :=
  ⟨[], state, rfl, rfl, h, rfl⟩

theorem Jams.of_run (hrun : start.run? used = some state) (h : Jams state rest failure) :
    Jams start (used ++ rest) failure := by
  obtain ⟨more, last, rfl, hmore, hstuck, hexpected⟩ := h
  refine ⟨used ++ more, last, (List.append_assoc ..).symm, ?_, hstuck, hexpected⟩
  rw [ParseState.run?_append, hrun, Option.bind_some, hmore]

theorem ParseState.run?_singleton (hstep : state.step? lexeme = some next) :
    state.run? [lexeme] = some next := by
  rw [run?, hstep]
  rfl

theorem Jams.of_step (hstep : state.step? lexeme = some next) (h : Jams next rest failure) :
    Jams state (lexeme :: rest) failure := by
  have hjams := h.of_run (ParseState.run?_singleton hstep)
  exact hjams

theorem Jams.length_le (h : Jams state lexemes failure) :
    failure.rest.length ≤ lexemes.length := by
  obtain ⟨used, last, rfl, -⟩ := h
  simp

/-- A token that is read is not the impossible one. -/
theorem Jams.lt_of_step (h : Jams state (lexeme :: rest) failure)
    (hstep : state.step? lexeme = some next) : failure.rest.length < (lexeme :: rest).length := by
  obtain ⟨_ | ⟨first, used⟩, last, hsplit, hrun, hstuck, -⟩ := h
  · obtain rfl : state = last := Option.some.inj hrun
    rw [← show lexeme :: rest = failure.rest from hsplit] at hstuck
    rw [show state.step? lexeme = none from hstuck] at hstep
    cases hstep
  · have hlength := congrArg List.length hsplit
    simp only [List.length_cons, List.length_append] at hlength ⊢
    omega

/-- Reading the tokens once ends with the error at the first impossible one. -/
theorem Jams.parseFrom_eq (h : Jams state lexemes failure) (stop : Nat) :
    parseFrom stop state lexemes = .error (failure.toError stop) := by
  obtain ⟨used, last, rfl, hrun, hstuck, hexpected⟩ := h
  induction used generalizing state with
  | nil =>
    obtain rfl : state = last := Option.some.inj hrun
    obtain ⟨_ | ⟨lexeme, rest⟩, expected⟩ := failure
    · have hfinish : state.finish? = none := hstuck
      simp only [List.append_nil, parseFrom, hfinish, ParseFailure.toError, ← hexpected]
    · have hstep : state.step? lexeme = none := hstuck
      simp only [List.nil_append, parseFrom, hstep, ParseFailure.toError, ← hexpected]
  | cons lexeme used ih =>
    obtain ⟨next, hstep, hrest⟩ := Option.bind_eq_some_iff.mp hrun
    simp only [List.cons_append, parseFrom, hstep]
    exact ih hrest

end

/-! ## What goes on behind an operand -/

/-- The token goes on with an operand of the level. -/
def Continues (level : Nat) (token : Token) : Prop :=
  token = .mark .dot ∨ (∃ op, token.infixOp? = some op ∧ level ≤ op.level + 1) ∨
    token = .mark .question ∧ level = 0

theorem Continues.mono {level tighter : Nat} {token : Token} (h : Continues tighter token)
    (hle : level ≤ tighter) : Continues level token := by
  obtain hdot | ⟨op, hop, hlevel⟩ | ⟨hquestion, rfl⟩ := h
  · exact .inl hdot
  · exact .inr (.inl ⟨op, hop, Nat.le_trans hle hlevel⟩)
  · exact .inr (.inr ⟨hquestion, Nat.le_zero.mp hle⟩)

theorem continues_eight {token : Token} : Continues 8 token ↔ Continues 9 token := by
  refine ⟨fun h => ?_, fun h => h.mono (by decide)⟩
  obtain hdot | ⟨op, -, hlevel⟩ | ⟨-, hlevel⟩ := h
  · exact .inl hdot
  · have := op.level_le
    omega
  · cases hlevel

/-- What the state tries behind an operand before its members. -/
def ParseState.afterName : ParseState → List Expectation
  | .named _ _ _ => [.mark .openParen]
  | _ => []

/-- What is tried behind an operand of the level. -/
def continuationsAt : Nat → List Expectation
  | 0 => [.mark .dot, .somethingElse, .mark .andAnd, .mark .orOr, .mark .coalesce, .mark .question]
  | 1 => [.mark .dot, .somethingElse, .mark .andAnd, .mark .orOr, .mark .coalesce]
  | 2 => [.mark .dot, .somethingElse, .mark .andAnd, .mark .orOr]
  | 3 => [.mark .dot, .somethingElse, .mark .andAnd]
  | 4 | 5 | 6 | 7 => [.mark .dot, .somethingElse]
  | _ => [.mark .dot]

/-- What is tried behind an operand of the level that was read last. -/
def ParseState.tried (state : ParseState) (level : Nat) : List Expectation :=
  state.afterName ++ continuationsAt level

/-- The first of the tokens does not go on with an operand of the level that was read last. -/
def ParseState.Stops (state : ParseState) (level : Nat) (rest : List Lexeme) : Prop :=
  ∀ lexeme ∈ rest.head?, ¬ Continues level lexeme.token ∧
    (lexeme.token = .mark .openParen → state.afterName = [])

/-- The first of the tokens began an attempt to go on with an operand of the level. -/
def Broken (level : Nat) (rest : List Lexeme) : Prop :=
  ∀ lexeme ∈ rest.head?, lexeme.token = .mark .openParen ∨ Continues level lexeme.token

theorem ParseState.notMem_tried (state : ParseState) {level : Nat} {expectation : Expectation}
    (hcontinues : expectation ∉ continuationsAt level) (hopen : expectation ≠ .mark .openParen) :
    expectation ∉ state.tried level := by
  unfold tried afterName
  split
  · simpa [hopen] using hcontinues
  · exact hcontinues

section

variable {state : ParseState} {operand value : Tree} {below opened : List Frame}
  {rest : List Lexeme} {level : Nat}

theorem closers_reduceAll (stack : List Frame) (operand : Tree) :
    closers (reduceAll stack operand).2 = closers stack := by
  induction stack generalizing operand with
  | nil => rfl
  | cons frame stack ih =>
    cases frame with
    | unary op start => exact ih (.unary (start.to operand.span) op operand)
    | operator op lhs => exact ih (op.join lhs operand)
    | ifFalse predicate ifTrue =>
      exact ih (.ternary (predicate.span.to operand.span) predicate ifTrue operand)
    | ifTrue | group | arguments => rfl

theorem ParseState.expected_of_pending (hpending : state.pending? = some (operand, below))
    (hclosed : reduceAll below operand = (value, opened)) :
    state.expected = state.tried 0 ++ closers opened := by
  have hopened : closers opened = closers below := by
    rw [← closers_reduceAll below operand, hclosed]
  rw [hopened]
  cases state with
  | operand | firstArgument | member => cases hpending
  | named | complete =>
    cases hpending
    rfl

theorem continue?_eq_none {lexeme : Lexeme} (hcontinues : ¬ Continues 0 lexeme.token)
    (hclosed : reduceAll below operand = (value, opened))
    (hclosers : ∀ mark, .mark mark ∈ closers opened → lexeme.token ≠ .mark mark) :
    continue? lexeme operand below = none := by
  unfold continue?
  split
  · next hdot => exact absurd (.inl hdot) hcontinues
  · next hquestion => exact absurd (.inr (.inr ⟨hquestion, rfl⟩)) hcontinues
  · next hcolon =>
    rw [hclosed]
    split
    · next heq =>
      cases heq
      exact absurd hcolon (hclosers _ (by simp [closers]))
    · rfl
  · next hcomma =>
    rw [hclosed]
    split
    · next heq =>
      cases heq
      exact absurd hcomma (hclosers _ (by simp [closers]))
    · rfl
  · next hclosing =>
    rw [hclosed]
    split
    · next heq =>
      cases heq
      exact absurd hclosing (hclosers _ (by simp [closers]))
    · next heq =>
      cases heq
      exact absurd hclosing (hclosers _ (by simp [closers]))
    · rfl
  · next mark _ _ _ _ _ hmark =>
    cases hop : mark.infixOp? with
    | none => rfl
    | some op =>
      refine absurd (.inr (.inl ⟨op, ?_, Nat.zero_le _⟩)) hcontinues
      rw [hmark]
      exact hop
  · rfl

/-- Behind an operand with which the first token does not go on, and which it does not close, the
state is stuck. -/
theorem ParseState.Stops.stuck (hstops : state.Stops 0 rest)
    (hpending : state.pending? = some (operand, below))
    (hclosed : reduceAll below operand = (value, opened))
    (hclosers : ∀ lexeme ∈ rest.head?, ∀ mark, .mark mark ∈ closers opened →
      lexeme.token ≠ .mark mark)
    (hend : rest = [] → opened ≠ []) : state.Stuck rest := by
  cases rest with
  | nil =>
    refine Option.eq_none_iff_forall_ne_some.mpr fun tree hfinish => ?_
    obtain ⟨operand, stack, hpending', hall⟩ := finish?_eq_some_iff.mp hfinish
    rw [hpending] at hpending'
    cases hpending'
    rw [hclosed] at hall
    cases hall
    exact hend rfl rfl
  | cons lexeme rest =>
    obtain ⟨hcontinues, hopen⟩ := hstops lexeme rfl
    have hnone := continue?_eq_none hcontinues hclosed (hclosers lexeme rfl)
    cases state with
    | operand | firstArgument | member => cases hpending
    | named receiver name stack =>
      cases hpending
      have hopen : lexeme.token ≠ .mark .openParen := fun h => by cases hopen h
      exact (if_neg hopen).trans hnone
    | complete last stack =>
      cases hpending
      exact hnone

/-- The last of what could close the construct is tried in vain. -/
theorem Jams.of_stops {α : Type} {failure : Option ParseFailure} {expected : List Expectation}
    {expectation : Expectation} (hstops : state.Stops 0 rest)
    (hpending : state.pending? = some (operand, below))
    (hclosed : reduceAll below operand = (value, opened)) (htried : Tried failure rest expected)
    (hnew : expectation ∉ expected)
    (hexpected : expected ++ [expectation] = state.tried 0 ++ closers opened)
    (hclosers : ∀ lexeme ∈ rest.head?, ∀ mark, .mark mark ∈ closers opened →
      lexeme.token ≠ .mark mark)
    (hend : rest = [] → opened ≠ []) :
    ∃ f, (fail expectation : TokenParser α) failure rest = ⟨some f, none⟩ ∧ Jams state rest f := by
  have hjams := Jams.of_stuck (hstops.stuck hpending hclosed hclosers hend)
  have hfailed := htried.failed_of_notMem _ hnew
  rw [hexpected, ← ParseState.expected_of_pending hpending hclosed] at hfailed
  cases hstate : state.expected with
  | nil =>
    rw [ParseState.expected_of_pending hpending hclosed, ← hexpected] at hstate
    simp at hstate
  | cons first others =>
    rw [hstate] at hfailed hjams
    exact ⟨_, congrArg (Attempt.mk · none) hfailed.eq, hjams⟩

end

/-! ## Following the states -/

/-- A parser of something that leaves no choice follows the states: it has moved to the state of
its value, or it has failed at the first impossible token. -/
inductive Completes {α : Type} (start : ParseState) (next : α → ParseState)
    (lexemes : List Lexeme) : Attempt α → Prop
  | read (used : List Lexeme) {rest : List Lexeme} {failure : Option ParseFailure} {value : α} :
    lexemes = used ++ rest → start.run? used = some (next value) → Tried failure rest [] →
      Completes start next lexemes ⟨failure, some (value, rest)⟩
  | failed {failure : ParseFailure} :
    Jams start lexemes failure → Completes start next lexemes ⟨some failure, none⟩

/-- A parser of operands of a level follows the states: it has read an operand as the states do, or
the states do not get to the end of what it has read, or it has failed where they do. -/
inductive FollowsStates (level : Nat) (start : ParseState) (stack : List Frame)
    (lexemes : List Lexeme) : Attempt Tree → Prop
  | read (used : List Lexeme) {rest : List Lexeme} {failure : Option ParseFailure}
      {last : ParseState} {operand tree : Tree} {below : List Frame} :
    lexemes = used ++ rest → start.run? used = some last →
      last.pending? = some (operand, below) → Closes level operand below tree stack →
      Tried failure rest (last.tried level) → last.Stops level rest →
      FollowsStates level start stack lexemes ⟨failure, some (tree, rest)⟩
  | abandoned {rest : List Lexeme} {failure : ParseFailure} {tree : Tree} :
    Jams start lexemes failure → failure.rest.length < rest.length →
      rest.length ≤ lexemes.length → Broken level rest →
      FollowsStates level start stack lexemes ⟨some failure, some (tree, rest)⟩
  | failed {failure : ParseFailure} :
    Jams start lexemes failure → FollowsStates level start stack lexemes ⟨some failure, none⟩

/-- The parser follows the states on all lists of fewer tokens. -/
def FollowsBelow (bound level : Nat) (parser : TokenParser Tree) : Prop :=
  ∀ failure lexemes stack, lexemes.length < bound → Tried failure lexemes [] →
    Fits level stack → FollowsStates level (.operand stack) stack lexemes (parser failure lexemes)

section

variable {level : Nat} {start state : ParseState} {stack : List Frame} {used rest : List Lexeme}
  {outcome : Attempt Tree}

/-- What was read in front. -/
theorem FollowsStates.of_run (hrun : start.run? used = some state)
    (h : FollowsStates level state stack rest outcome) :
    FollowsStates level start stack (used ++ rest) outcome := by
  cases h with
  | read more hsplit hmore hpending hcloses htried hstops =>
    rw [hsplit, ← List.append_assoc]
    refine .read (used ++ more) rfl ?_ hpending hcloses htried hstops
    rw [ParseState.run?_append, hrun, Option.bind_some, hmore]
  | abandoned hjams hfurther hle hbroken =>
    refine .abandoned (hjams.of_run hrun) hfurther ?_ hbroken
    rw [List.length_append]
    omega
  | failed hjams => exact .failed (hjams.of_run hrun)

theorem FollowsStates.of_step {lexeme : Lexeme} (hstep : start.step? lexeme = some state)
    (h : FollowsStates level state stack rest outcome) :
    FollowsStates level start stack (lexeme :: rest) outcome := by
  have hfollows := h.of_run (ParseState.run?_singleton hstep)
  exact hfollows

theorem Completes.of_run {α : Type} {next : α → ParseState} {outcome : Attempt α}
    (hrun : start.run? used = some state) (h : Completes state next rest outcome) :
    Completes start next (used ++ rest) outcome := by
  cases h with
  | read more hsplit hmore htried =>
    rw [hsplit, ← List.append_assoc]
    refine .read (used ++ more) rfl ?_ htried
    rw [ParseState.run?_append, hrun, Option.bind_some, hmore]
  | failed hjams => exact .failed (hjams.of_run hrun)

theorem Completes.of_step {α : Type} {next : α → ParseState} {outcome : Attempt α}
    {lexeme : Lexeme} (hstep : start.step? lexeme = some state)
    (h : Completes state next rest outcome) : Completes start next (lexeme :: rest) outcome := by
  have hcompletes := h.of_run (ParseState.run?_singleton hstep)
  exact hcompletes

end

end BindingPlan
