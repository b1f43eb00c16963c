import BindingPlan.Proofs.Tree.Stops

/-!
# Operators and choices by ordered choice

A level of the grammar follows the states of the parser if the tighter level does: an operator of
the level leads to the next operand, and where that operand fails the level ends at the operator.

Main results:

* `ReadsSigns`: the parsers of operators read the signs of their levels.
* `follows_infixLevel`: a level of operators follows the states.
* `follows_ternary`: choices follow the states.
-/

namespace BindingPlan

open TokenParser

/-! ## Operators between operands -/

/-- The operator of the level that a token is. -/
def Token.signAt (level : Nat) (token : Token) : Option InfixOp :=
  token.infixOp?.filter fun op => op.level + 1 = level

theorem Token.signAt_eq_some_iff {level : Nat} {token : Token} {op : InfixOp} :
    token.signAt level = some op ↔ token.infixOp? = some op ∧ op.level + 1 = level := by
  simp [signAt, Option.filter_eq_some_iff]

/-- What goes on with an operand goes on with tighter ones or is an operator of the level. -/
theorem continues_iff {level : Nat} {token : Token} (hlevel : 0 < level) :
    Continues level token ↔ Continues (level + 1) token ∨ ∃ op, token.signAt level = some op := by
  simp only [Continues, Token.signAt_eq_some_iff]
  constructor
  · rintro (hdot | ⟨op, hop, hle⟩ | ⟨-, rfl⟩)
    · exact .inl (.inl hdot)
    · obtain heq | hlt := Nat.eq_or_lt_of_le hle
      · exact .inr ⟨op, hop, heq.symm⟩
      · exact .inl (.inr (.inl ⟨op, hop, hlt⟩))
    · cases hlevel
  · rintro ((hdot | ⟨op, hop, hle⟩ | ⟨-, hzero⟩) | ⟨op, hop, hle⟩)
    · exact .inl hdot
    · exact .inr (.inl ⟨op, hop, Nat.le_of_succ_le hle⟩)
    · cases hzero
    · exact .inr (.inl ⟨op, hop, Nat.le_of_eq hle.symm⟩)

/-- What is tried at the level behind an operand is what was tried at the tighter one, and the
expectation. -/
def Adds (level : Nat) (expectation : Expectation) : Prop :=
  ∀ state : ParseState, state.tried level =
    if expectation ∈ state.tried (level + 1) then state.tried (level + 1)
    else state.tried (level + 1) ++ [expectation]

/-- The parser reads the operators of the level. -/
structure ReadsSigns (level : Nat) (op : TokenParser InfixOp) (expectation : Expectation) :
    Prop where
  read : ∀ {failure sign rest o}, sign.token.signAt level = some o →
    op failure (sign :: rest) = ⟨failure, some (o, rest)⟩
  failed : ∀ {failure rest},
    (∀ lexeme ∈ rest.head?, ¬ ∃ op, lexeme.token.signAt level = some op) →
      op failure rest = fail expectation failure rest
  adds : Adds level expectation

theorem readsSigns_select {level : Nat} {value? : Lexeme → Option InfixOp}
    (hvalue : ∀ lexeme, value? lexeme = lexeme.token.signAt level)
    (hadds : Adds level .somethingElse) :
    ReadsSigns level (select .somethingElse value?) .somethingElse where
  read hsign := select_of_some ((hvalue _).trans hsign)
  failed hnone := select_of_none fun lexeme hlexeme =>
    Option.eq_none_iff_forall_ne_some.mpr fun op hop =>
      hnone lexeme hlexeme ⟨op, (hvalue lexeme).symm.trans hop⟩
  adds := hadds

theorem readsSigns_justOp {level : Nat} {mark : Mark} {op : InfixOp}
    (hmark : ∀ token : Token, token.signAt level = if token = .mark mark then some op else none)
    (hadds : Adds level (.mark mark)) : ReadsSigns level (justOp mark op) (.mark mark) where
  read hsign := by
    rw [hmark] at hsign
    obtain ⟨htoken, hop⟩ := Option.ite_none_right_eq_some.mp hsign
    cases hop
    exact bind_of_read (just_of_eq htoken)
  failed hnone := by
    refine bind_of_failed (just_of_ne fun lexeme hlexeme htoken => ?_)
    exact hnone lexeme hlexeme ⟨op, (hmark lexeme.token).trans (if_pos htoken)⟩
  adds := hadds

theorem readsSigns_productOp : ReadsSigns 7 productOp .somethingElse := by
  refine readsSigns_select (fun ⟨token, _⟩ => ?_) fun state => by cases state <;> rfl
  cases token with
  | mark mark => cases mark <;> rfl
  | _ => rfl

theorem readsSigns_sumOp : ReadsSigns 6 sumOp .somethingElse := by
  refine readsSigns_select (fun ⟨token, _⟩ => ?_) fun state => by cases state <;> rfl
  cases token with
  | mark mark => cases mark <;> rfl
  | _ => rfl

theorem readsSigns_relationalOp : ReadsSigns 5 relationalOp .somethingElse := by
  refine readsSigns_select (fun ⟨token, _⟩ => ?_) fun state => by cases state <;> rfl
  cases token with
  | mark mark => cases mark <;> rfl
  | _ => rfl

theorem readsSigns_equalityOp : ReadsSigns 4 equalityOp .somethingElse := by
  refine readsSigns_select (fun ⟨token, _⟩ => ?_) fun state => by cases state <;> rfl
  cases token with
  | mark mark => cases mark <;> rfl
  | _ => rfl

theorem readsSigns_and :
    ReadsSigns 3 (justOp .andAnd (.binary (.logical .and))) (.mark .andAnd) := by
  refine readsSigns_justOp (fun token => ?_) fun state => by cases state <;> rfl
  cases token with
  | mark mark => cases mark <;> rfl
  | _ => rfl

theorem readsSigns_or :
    ReadsSigns 2 (justOp .orOr (.binary (.logical .or))) (.mark .orOr) := by
  refine readsSigns_justOp (fun token => ?_) fun state => by cases state <;> rfl
  cases token with
  | mark mark => cases mark <;> rfl
  | _ => rfl

theorem readsSigns_coalesce : ReadsSigns 1 (justOp .coalesce .coalesce) (.mark .coalesce) := by
  refine readsSigns_justOp (fun token => ?_) fun state => by cases state <;> rfl
  cases token with
  | mark mark => cases mark <;> rfl
  | _ => rfl

section

variable {level bound : Nat} {op : TokenParser InfixOp} {expectation : Expectation}
  {operandParser : TokenParser Tree}

/-- No operator of the level is tried where an attempt of a tighter one began. -/
theorem ReadsSigns.of_broken (h : ReadsSigns level op expectation) {f : ParseFailure}
    {rest : List Lexeme} (hbroken : Broken (level + 1) rest)
    (hfurther : f.rest.length < rest.length) : op (some f) rest = ⟨some f, none⟩ := by
  rw [h.failed, fail_of_further hfurther]
  rintro lexeme hlexeme ⟨o, ho⟩
  obtain ⟨hop, hlevel⟩ := Token.signAt_eq_some_iff.mp ho
  obtain hopen | hdot | ⟨o', hop', hlevel'⟩ | ⟨hquestion, -⟩ := hbroken lexeme hlexeme
  · exact infixOp?_ne_openParen hop hopen
  · rw [hdot] at hop
    cases hop
  · rw [hop] at hop'
    cases hop'
    omega
  · rw [hquestion] at hop
    cases hop

theorem Broken.loosen {rest : List Lexeme} (h : Broken (level + 1) rest) : Broken level rest :=
  fun lexeme hlexeme => (h lexeme hlexeme).imp_right fun hcontinues =>
    hcontinues.mono (Nat.le_succ level)

/-- The operators and operands of a level behind a first operand, by induction on the number of
tokens: each round reads an operator and the operand behind it, or goes back to the operator. -/
theorem follows_foldMany (hlevel : 0 < level) (hop : ReadsSigns level op expectation)
    (hoperand : FollowsBelow bound (level + 1) operandParser) {stack : List Frame}
    (hfits : Fits level stack) {state : ParseState} {last lhs : Tree} {below : List Frame}
    {failure : Option ParseFailure} {lexemes : List Lexeme}
    (hpending : state.pending? = some (last, below)) (hcloses : Closes level last below lhs stack)
    (htried : Tried failure lexemes (state.tried (level + 1)))
    (hstops : state.Stops (level + 1) lexemes) (hbound : lexemes.length ≤ bound) :
    FollowsStates level state stack lexemes
      (foldMany (fun lhs (op, rhs) => op.join lhs rhs) (both op operandParser) lhs failure
        lexemes) := by
  induction hn : lexemes.length using Nat.strongRecOn generalizing
    state last lhs below failure lexemes with
  | _ n ih =>
  subst hn
  obtain ⟨sign, rest, rfl, o, ho⟩ | hnone :=
    exists_cons_or_not (fun lexeme => ∃ op, lexeme.token.signAt level = some op) lexemes
  · obtain ⟨htable, rfl⟩ := Token.signAt_eq_some_iff.mp ho
    have hstep := hcloses.step?_infixOp hpending hfits htable
    have hread : op failure (sign :: rest) = ⟨failure, some (o, rest)⟩ := hop.read ho
    have hrhs := hoperand failure rest (.operator o lhs :: stack) hbound
      (htried.passed (Nat.lt_succ_self _)) (Nat.lt_succ_self _)
    generalize hresult : operandParser failure rest = result at hrhs
    cases hrhs with
    | @read used behind _ _ _ _ _ hsplit hrun hpending' hcloses' htried' hstops' =>
      subst hsplit
      simp only [List.length_cons, List.length_append] at hbound ih
      rw [foldMany_of_read (both_of_read hread hresult) (by
        simp only [List.length_cons, List.length_append]
        omega)]
      exact .of_step hstep (.of_run hrun (ih behind.length (by omega) hpending'
        hcloses'.operator htried' hstops' (by omega) rfl))
    | abandoned hjams hfurther hle hbroken =>
      rw [foldMany_of_read (both_of_read hread hresult) (Nat.lt_succ_of_le hle),
        foldMany_of_failed (both_of_failed (hop.of_broken hbroken hfurther))]
      exact .abandoned (hjams.of_step hstep) hfurther (Nat.le_succ_of_le hle) hbroken.loosen
    | failed hjams =>
      rw [foldMany_of_failed (both_of_second_failed hread hresult)]
      refine .abandoned (hjams.of_step hstep) (Nat.lt_succ_of_le hjams.length_le)
        (Nat.le_refl _) fun lexeme hlexeme => ?_
      cases hlexeme
      exact .inr (.inr (.inl ⟨o, htable, Nat.le_refl _⟩))
  · have htried' := htried.failed expectation
    rw [← hop.adds] at htried'
    rw [foldMany_of_failed (both_of_failed (hop.failed hnone))]
    refine .read [] rfl rfl hpending hcloses htried' fun lexeme hlexeme => ?_
    obtain ⟨hcontinues, hopen⟩ := hstops lexeme hlexeme
    rw [continues_iff hlevel]
    exact ⟨not_or.mpr ⟨hcontinues, hnone lexeme hlexeme⟩, hopen⟩

/-- A level of operators follows the states if its operands do. -/
theorem follows_infixLevel (hlevel : 0 < level) (hop : ReadsSigns level op expectation)
    (hoperand : FollowsBelow bound (level + 1) operandParser) :
    FollowsBelow bound level (infixLevel op operandParser) := by
  intro failure lexemes stack hbound htried hfits
  have hfirst := hoperand failure lexemes stack hbound htried (hfits.mono (Nat.le_succ level))
  unfold infixLevel
  generalize hresult : operandParser failure lexemes = result at hfirst
  cases hfirst with
  | read used hsplit hrun hpending hcloses htried' hstops =>
    subst hsplit
    rw [bind_of_read hresult]
    refine .of_run hrun (follows_foldMany hlevel hop hoperand hfits hpending hcloses.loosen htried'
      hstops ?_)
    simp at hbound
    omega
  | abandoned hjams hfurther hle hbroken =>
    rw [bind_of_read hresult,
      foldMany_of_failed (both_of_failed (hop.of_broken hbroken hfurther))]
    exact .abandoned hjams hfurther hle hbroken.loosen
  | failed hjams =>
    rw [bind_of_failed hresult]
    exact .failed hjams

end

/-! ## Choices -/

section

variable {bound level : Nat} {expression : TokenParser Tree} {stack below : List Frame}
  {state : ParseState} {last : Tree} {failure : Option ParseFailure} {lexemes rest : List Lexeme}

/-- A mark that does not continue operands is not tried with success where an attempt began. -/
theorem just_of_broken (mark : Mark) {f : ParseFailure} (hbroken : Broken level rest)
    (hmark : mark ≠ .openParen ∧ mark ≠ .dot ∧ mark.infixOp? = none ∧
      (mark = .question → level ≠ 0))
    (hfurther : f.rest.length < rest.length) : just mark (some f) rest = ⟨some f, none⟩ := by
  obtain ⟨hopen, hdot, hop, hquestion⟩ := hmark
  rw [just_of_ne, fail_of_further hfurther]
  intro lexeme hlexeme htoken
  have hcontinues := hbroken lexeme hlexeme
  simp only [htoken, Continues, Token.infixOp?, hop, Token.mark.injEq] at hcontinues
  obtain h | h | ⟨op, h, -⟩ | ⟨h, hzero⟩ := hcontinues
  · exact hopen h
  · exact hdot h
  · cases h
  · exact hquestion h hzero

/-- The one mark that closes a construct is the last to be tried behind an operand in it. -/
theorem just_of_stops {mark : Mark} {value : Tree} {opened : List Frame}
    (hstops : state.Stops 0 rest) (hpending : state.pending? = some (last, below))
    (hclosed : reduceAll below last = (value, opened)) (hopened : opened ≠ [])
    (hcloser : closers opened = [.mark mark])
    (hmark : .mark mark ∉ continuationsAt 0 ∧ mark ≠ .openParen)
    (htried : Tried failure rest (state.tried 0))
    (hnone : ∀ lexeme ∈ rest.head?, lexeme.token ≠ .mark mark) :
    ∃ f, just mark failure rest = ⟨some f, none⟩ ∧ Jams state rest f := by
  have hnew := state.notMem_tried hmark.1 fun heq => hmark.2 (Expectation.mark.inj heq)
  have hclosers : ∀ lexeme ∈ rest.head?, ∀ other, .mark other ∈ closers opened →
      lexeme.token ≠ .mark other := by
    intro lexeme hlexeme other hother
    rw [hcloser, List.mem_singleton] at hother
    exact Expectation.mark.inj hother ▸ hnone lexeme hlexeme
  obtain ⟨f, hfail, hjams⟩ := Jams.of_stops hstops hpending hclosed htried hnew (hcloser ▸ rfl)
    hclosers fun _ => hopened
  exact ⟨f, (just_of_ne hnone).trans hfail, hjams⟩

/-- The value of a choice up to the colon. -/
theorem branches_toColon (predicate : Tree) (stack : List Frame)
    (hexpression : FollowsBelow bound 0 expression) {question : Lexeme}
    (hquestion : question.token = .mark .question) (htried : Tried failure rest [])
    (hbound : rest.length < bound) :
    (∃ f, branches expression failure (question :: rest) = ⟨some f, none⟩ ∧
      Jams (.operand (.ifTrue predicate :: stack)) rest f) ∨
    ∃ ifTrue used failure' behind, rest = used ++ behind ∧ Tried failure' behind [] ∧
      (ParseState.operand (.ifTrue predicate :: stack)).run? used =
        some (.operand (.ifFalse predicate ifTrue :: stack)) ∧
      branches expression failure (question :: rest) =
        (expression >>= fun ifFalse => pure (ifTrue, ifFalse)) failure' behind := by
  have htrue := hexpression failure rest (.ifTrue predicate :: stack) hbound htried trivial
  unfold branches
  rw [bind_of_read (just_of_eq hquestion)]
  generalize hresult : expression failure rest = result at htrue
  cases htrue with
  | @read used behind failure' last operand ifTrue below hsplit hrun hpending hcloses hread
      hstops =>
    subst hsplit
    rw [bind_of_read hresult]
    have hclosed := hcloses.reduceAll_eq
    obtain ⟨colon, behind, rfl, hcolon⟩ | hnone :=
      exists_cons_or_not (·.token = .mark .colon) behind
    · have hstep' : last.step? colon = some (.operand (.ifFalse predicate ifTrue :: stack)) := by
        rw [ParseState.step?_of_pending hpending (by rw [hcolon]; decide),
          continue?_colon hcolon hclosed]
      refine .inr ⟨ifTrue, used ++ [colon], failure', behind, by simp,
        hread.passed (Nat.lt_succ_self _), ?_, bind_of_read (just_of_eq hcolon)⟩
      exact ParseState.run?_append_cons hrun hstep'
    · obtain ⟨f, hfail, hjams⟩ := just_of_stops hstops hpending hclosed (List.cons_ne_nil _ _) rfl
        (by decide) hread hnone
      rw [bind_of_failed hfail]
      exact .inl ⟨f, rfl, hjams.of_run hrun⟩
  | abandoned hjams hfurther hle hbroken =>
    rw [bind_of_read hresult, bind_of_failed (just_of_broken .colon hbroken (by decide) hfurther)]
    exact .inl ⟨_, rfl, hjams⟩
  | failed hjams =>
    rw [bind_of_failed hresult]
    exact .inl ⟨_, rfl, hjams⟩

theorem branches_of_failed {failure' : Option ParseFailure}
    (h : just .question failure lexemes = ⟨failure', none⟩) :
    branches expression failure lexemes = ⟨failure', none⟩ :=
  bind_of_failed h

/-- A question mark behind a predicate, with what it leads to. -/
theorem follows_branches (hexpression : FollowsBelow bound 0 expression) {predicate : Tree}
    {question : Lexeme} (hquestion : question.token = .mark .question)
    (hpending : state.pending? = some (last, below))
    (hcloses : Closes 1 last below predicate stack) (hfits : Fits 0 stack)
    (htried : Tried failure rest []) (hbound : rest.length < bound) :
    FollowsStates 0 state stack (question :: rest)
      ((optional (branches expression) >>= fun branches => pure (choiceOf predicate branches))
        failure (question :: rest)) := by
  have hbroken : Broken 0 (question :: rest) := by
    intro lexeme hlexeme
    cases hlexeme
    exact .inr (.inr (.inr ⟨hquestion, rfl⟩))
  have hstep := hcloses.step?_question hpending (hfits.mono (Nat.zero_le 1)) hquestion
  obtain ⟨f, hbranches, hjams⟩ | ⟨ifTrue, used, failure', behind, rfl, hread, hrun, hbranches⟩ :=
    branches_toColon predicate stack hexpression hquestion htried hbound
  · rw [bind_of_read (optional_of_failed hbranches)]
    exact .abandoned (hjams.of_step hstep) (Nat.lt_succ_of_le hjams.length_le) (Nat.le_refl _)
      hbroken
  · simp only [List.length_append] at hbound
    have hfalse := hexpression failure' behind (.ifFalse predicate ifTrue :: stack) (by omega)
      hread trivial
    generalize hresult : expression failure' behind = result at hfalse
    cases hfalse with
    | read used hsplit hrun' hpending' hcloses' hread' hstops' =>
      subst hsplit
      rw [bind_of_read (optional_of_read (hbranches.trans (bind_of_read hresult)))]
      exact .of_step hstep (.of_run hrun
        (.read _ rfl hrun' hpending' hcloses'.ternary hread' hstops'))
    | abandoned hjams hfurther hle hbroken' =>
      rw [bind_of_read (optional_of_read (hbranches.trans (bind_of_read hresult)))]
      exact .of_step hstep (.of_run hrun (.abandoned hjams hfurther hle hbroken'))
    | failed hjams =>
      rw [bind_of_read (optional_of_failed (hbranches.trans (bind_of_failed hresult)))]
      have hjams' := hjams.of_run hrun
      exact .abandoned (hjams'.of_step hstep) (Nat.lt_succ_of_le hjams'.length_le)
        (Nat.le_refl _) hbroken

/-- A predicate that no question mark follows is the whole choice. -/
theorem follows_noBranches {predicate : Tree} (hpending : state.pending? = some (last, below))
    (hcloses : Closes 1 last below predicate stack)
    (htried : Tried failure lexemes (state.tried 1)) (hstops : state.Stops 1 lexemes)
    (hnone : ∀ lexeme ∈ lexemes.head?, lexeme.token ≠ .mark .question) :
    FollowsStates 0 state stack lexemes
      ((optional (branches expression) >>= fun branches => pure (choiceOf predicate branches))
        failure lexemes) := by
  rw [bind_of_read (optional_of_failed (branches_of_failed (just_of_ne hnone)))]
  have hquestion : state.tried 0 = state.tried 1 ++ [.mark .question] := by cases state <;> rfl
  have hread := htried.failed_of_notMem (.mark .question)
    (state.notMem_tried (by decide) (by decide))
  rw [← hquestion] at hread
  refine .read [] rfl rfl hpending hcloses.loosen hread fun lexeme hlexeme => ?_
  obtain ⟨hcontinues, hopen⟩ := hstops lexeme hlexeme
  refine ⟨?_, hopen⟩
  rintro (hdot | ⟨op, hop, -⟩ | ⟨hmark, -⟩)
  · exact hcontinues (.inl hdot)
  · exact hcontinues (.inr (.inl ⟨op, hop, Nat.le_add_left 1 _⟩))
  · exact hnone lexeme hlexeme hmark

/-- A choice behind a predicate, or the predicate alone. -/
theorem follows_choice (hexpression : FollowsBelow bound 0 expression) {predicate : Tree}
    (hpending : state.pending? = some (last, below))
    (hcloses : Closes 1 last below predicate stack) (hfits : Fits 0 stack)
    (htried : Tried failure lexemes (state.tried 1)) (hstops : state.Stops 1 lexemes)
    (hbound : lexemes.length ≤ bound) :
    FollowsStates 0 state stack lexemes
      ((optional (branches expression) >>= fun branches => pure (choiceOf predicate branches))
        failure lexemes) := by
  obtain ⟨question, rest, rfl, hquestion⟩ | hnone :=
    exists_cons_or_not (·.token = .mark .question) lexemes
  · exact follows_branches hexpression hquestion hpending hcloses hfits
      (htried.passed (Nat.lt_succ_self _)) hbound
  · exact follows_noBranches hpending hcloses htried hstops hnone

/-- Choices follow the states if their parts do. -/
theorem follows_ternary (hexpression : FollowsBelow bound 0 expression)
    (hcoalesce : FollowsBelow (bound + 1) 1 (coalesce expression)) :
    FollowsBelow (bound + 1) 0 (ternary expression) := by
  intro failure lexemes stack hbound htried hfits
  have hpredicate := hcoalesce failure lexemes stack hbound htried (hfits.mono (Nat.zero_le 1))
  unfold ternary
  generalize hresult : coalesce expression failure lexemes = result at hpredicate
  cases hpredicate with
  | read used hsplit hrun hpending hcloses hread hstops =>
    subst hsplit
    rw [bind_of_read hresult]
    simp only [List.length_append] at hbound
    exact .of_run hrun
      (follows_choice hexpression hpending hcloses hfits hread hstops (by omega))
  | abandoned hjams hfurther hle hbroken =>
    have hnone := just_of_broken .question hbroken (by decide) hfurther
    rw [bind_of_read hresult, bind_of_read (optional_of_failed (branches_of_failed hnone))]
    exact .abandoned hjams hfurther hle hbroken.loosen
  | failed hjams =>
    rw [bind_of_failed hresult]
    exact .failed hjams

end

end BindingPlan
