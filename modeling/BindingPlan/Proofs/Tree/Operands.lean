import BindingPlan.Proofs.Tree.Levels

/-!
# Operands by ordered choice

Literals, names and groups, their members and calls, and the signs in front follow the states of the
parser if the expressions in their parentheses do.

Main results:

* `completes_atom`, `completes_args`: what stands in parentheses, and the other atoms.
* `follows_access`, `follows_unary`: operands with members behind and signs in front.
-/

namespace BindingPlan

open TokenParser

/-! ## Groups and arguments -/

section

variable {bound : Nat} {expression : TokenParser Tree} {stack : List Frame}
  {failure : Option ParseFailure} {lexemes rest : List Lexeme} {target : Tree} {name : Name}

theorem completes_group (hexpression : FollowsBelow bound 0 expression) {opening : Lexeme}
    (hopening : opening.token = .mark .openParen) (htried : Tried failure rest [])
    (hbound : rest.length < bound) :
    Completes (.operand stack) (fun tree => .complete tree stack) (opening :: rest)
      (group expression failure (opening :: rest)) := by
  have hstep : (ParseState.operand stack).step? opening =
      some (.operand (.group opening.span :: stack)) := startOperand?_openParen hopening
  have hinner := hexpression failure rest (.group opening.span :: stack) hbound htried trivial
  unfold group
  rw [bind_of_read (just_of_eq hopening)]
  generalize hresult : expression failure rest = result at hinner
  cases hinner with
  | @read used behind failure' last operand inner below hsplit hrun hpending hcloses hread
      hstops =>
    subst hsplit
    rw [bind_of_read hresult]
    have hclosed := hcloses.reduceAll_eq
    obtain ⟨closing, behind, rfl, hclosing⟩ | hnone :=
      exists_cons_or_not (·.token = .mark .closeParen) behind
    · have hstep' : last.step? closing =
          some (.complete (.group (opening.span.to closing.span) inner) stack) := by
        rw [ParseState.step?_of_pending hpending (by rw [hclosing]; decide),
          continue?_closeGroup hclosing hclosed]
      rw [bind_of_read (just_of_eq hclosing)]
      exact .of_step hstep (.read (used ++ [closing]) (by simp)
        (ParseState.run?_append_cons hrun hstep') (hread.passed (Nat.lt_succ_self _)))
    · obtain ⟨f, hfail, hjams⟩ := just_of_stops hstops hpending hclosed (List.cons_ne_nil _ _) rfl
        (by decide) hread hnone
      rw [bind_of_failed hfail]
      exact .failed ((hjams.of_run hrun).of_step hstep)
  | abandoned hjams hfurther hle hbroken =>
    rw [bind_of_read hresult,
      bind_of_failed (just_of_broken .closeParen hbroken (by decide) hfurther)]
    exact .failed (hjams.of_step hstep)
  | failed hjams =>
    rw [bind_of_failed hresult]
    exact .failed (hjams.of_step hstep)

/-- The state behind the arguments of a call and its closing parenthesis. -/
def called (target : Tree) (name : Name) (stack : List Frame) : List Tree × Span → ParseState
  | (args, closing) => .complete (.call (target.span.to closing) target name args) stack

/-- The last argument and the closing parenthesis. -/
theorem completes_lastArg {state : ParseState} {last arg : Tree} {below : List Frame}
    {done : List Tree} (hpending : state.pending? = some (last, below))
    (hclosed : reduceAll below last = (arg, .arguments target name done :: stack))
    (htried : Tried failure lexemes (state.tried 0)) (hstops : state.Stops 0 lexemes)
    (hnone : ∀ lexeme ∈ lexemes.head?, lexeme.token ≠ .mark .comma) :
    Completes state (called target name stack) lexemes
      ((many (just .comma >>= fun _ => expression) >>= fun more =>
        just .closeParen >>= fun closing => pure (done ++ arg :: more, closing.span))
          failure lexemes) := by
  have hread := htried.failed_of_notMem (.mark .comma)
    (state.notMem_tried (by decide) (by decide))
  rw [bind_of_read (many_of_failed (bind_of_failed (just_of_ne hnone)))]
  obtain ⟨closing, rest, rfl, hclosing⟩ | hopen :=
    exists_cons_or_not (·.token = .mark .closeParen) lexemes
  · have hstep : state.step? closing = some (.complete
        (.call (target.span.to closing.span) target name (done ++ [arg])) stack) := by
      rw [ParseState.step?_of_pending hpending (by rw [hclosing]; decide),
        continue?_closeCall hclosing hclosed]
    rw [bind_of_read (just_of_eq hclosing)]
    exact .read [closing] rfl (ParseState.run?_singleton hstep)
      (hread.passed (Nat.lt_succ_self _))
  · have hnew : .mark .closeParen ∉ state.tried 0 ++ [.mark .comma] := by
      simpa using state.notMem_tried (by decide) (by decide)
    obtain ⟨f, hfail, hjams⟩ := Jams.of_stops hstops hpending hclosed hread hnew
      (List.append_assoc ..)
      (fun lexeme hlexeme mark hmark => by
        simp only [closers, List.mem_cons, Expectation.mark.injEq, List.not_mem_nil,
          or_false] at hmark
        obtain rfl | rfl := hmark
        · exact hnone lexeme hlexeme
        · exact hopen lexeme hlexeme)
      (fun _ => List.cons_ne_nil _ _)
    rw [bind_of_failed ((just_of_ne hopen).trans hfail)]
    exact .failed hjams

/-- The arguments behind those that are complete, by induction on the number of tokens. -/
theorem completes_moreArgs (hexpression : FollowsBelow bound 0 expression) {state : ParseState}
    {last arg : Tree} {below : List Frame} {done : List Tree}
    (hpending : state.pending? = some (last, below))
    (hclosed : reduceAll below last = (arg, .arguments target name done :: stack))
    (htried : Tried failure lexemes (state.tried 0)) (hstops : state.Stops 0 lexemes)
    (hbound : lexemes.length ≤ bound) :
    Completes state (called target name stack) lexemes
      ((many (just .comma >>= fun _ => expression) >>= fun more =>
        just .closeParen >>= fun closing => pure (done ++ arg :: more, closing.span))
          failure lexemes) := by
  induction hn : lexemes.length using Nat.strongRecOn generalizing
    state last arg below done failure lexemes with
  | _ n ih =>
  subst hn
  obtain ⟨comma, rest, rfl, hcomma⟩ | hnone := exists_cons_or_not (·.token = .mark .comma) lexemes
  · have hstep : state.step? comma =
        some (.operand (.arguments target name (done ++ [arg]) :: stack)) := by
      rw [ParseState.step?_of_pending hpending (by rw [hcomma]; decide),
        continue?_comma hcomma hclosed]
    have hnext := hexpression failure rest (.arguments target name (done ++ [arg]) :: stack)
      hbound (htried.passed (Nat.lt_succ_self _)) trivial
    have hbehind : just .comma failure (comma :: rest) = ⟨failure, some (comma, rest)⟩ :=
      just_of_eq hcomma
    generalize hresult : expression failure rest = result at hnext
    cases hnext with
    | @read used behind failure' last operand next below hsplit hrun hpending' hcloses hread
        hstops' =>
      subst hsplit
      simp only [List.length_cons, List.length_append] at hbound ih
      have hmore := ih behind.length (by omega) hpending' hcloses.reduceAll_eq hread hstops'
        (by omega) rfl
      rw [bind_many_of_read ((bind_of_read hbehind).trans hresult) (by
        simp only [List.length_cons, List.length_append]
        omega)]
      refine .of_step hstep (.of_run hrun ?_)
      simpa only [List.append_assoc, List.cons_append, List.nil_append] using hmore
    | abandoned hjams hfurther hle hbroken =>
      have hcomma := just_of_broken .comma hbroken (by decide) hfurther
      have hclosing := just_of_broken .closeParen hbroken (by decide) hfurther
      rw [bind_many_of_read ((bind_of_read hbehind).trans hresult) (Nat.lt_succ_of_le hle),
        bind_of_read (many_of_failed (bind_of_failed hcomma)), bind_of_failed hclosing]
      exact .failed (hjams.of_step hstep)
    | failed hjams =>
      have hclosing : ∀ lexeme ∈ (comma :: rest).head?, lexeme.token ≠ .mark .closeParen := by
        intro lexeme hlexeme
        cases hlexeme
        rw [hcomma]
        decide
      rw [bind_of_read (many_of_failed ((bind_of_read hbehind).trans hresult)),
        bind_of_failed ((just_of_ne hclosing).trans
          (fail_of_further (Nat.lt_succ_of_le hjams.length_le)))]
      exact .failed (hjams.of_step hstep)
  · exact completes_lastArg hpending hclosed htried hstops hnone

theorem Jams.firstArgument {f : ParseFailure}
    (h : Jams (.operand (.arguments target name [] :: stack)) rest f)
    (hlt : f.rest.length < rest.length) : Jams (.firstArgument target name stack) rest f := by
  obtain ⟨used, last, rfl, hrun, hstuck, hexpected⟩ := h
  refine ⟨used, last, rfl, run?_firstArgument ?_ hrun, hstuck, hexpected⟩
  rintro rfl
  exact Nat.lt_irrefl _ hlt

/-- A call without arguments, where an operand cannot start. -/
theorem completes_noArgs
    (h : (ParseState.operand (.arguments target name [] :: stack)).Stuck rest) :
    Completes (.firstArgument target name stack) (called target name stack) rest
      ((just .closeParen >>= fun closing => pure ([], closing.span)) (some ⟨rest, operandStarts⟩)
        rest) := by
  have htried : Tried (some ⟨rest, operandStarts⟩) rest operandStarts := rfl
  obtain ⟨closing, behind, rfl, hclosing⟩ | hopen :=
    exists_cons_or_not (·.token = .mark .closeParen) rest
  · have hstep : (ParseState.firstArgument target name stack).step? closing =
        some (.complete (.call (target.span.to closing.span) target name []) stack) :=
      if_pos hclosing
    rw [bind_of_read (just_of_eq hclosing)]
    exact .read [closing] rfl (ParseState.run?_singleton hstep)
      (htried.passed (Nat.lt_succ_self _))
  · have hfailed := htried.failed_of_notMem (.mark .closeParen) (by decide)
    have hstuck : (ParseState.firstArgument target name stack).Stuck rest := by
      cases rest with
      | nil => rfl
      | cons lexeme behind => exact (if_neg (hopen lexeme rfl)).trans h
    rw [bind_of_failed ((just_of_ne hopen).trans (congrArg (Attempt.mk · none) hfailed.eq))]
    exact .failed (.of_stuck hstuck)

/-- The arguments of a call behind its opening parenthesis. -/
theorem completes_argsBehind (hexpression : FollowsBelow bound 0 expression)
    (htried : Tried failure rest []) (hbound : rest.length < bound) :
    Completes (.firstArgument target name stack) (called target name stack) rest
      ((separatedBy (just .comma) expression >>= fun args =>
        just .closeParen >>= fun closing => pure (args, closing.span)) failure rest) := by
  have hfirst := hexpression failure rest (.arguments target name [] :: stack) hbound htried
    trivial
  generalize hresult : expression failure rest = result at hfirst
  cases hfirst with
  | @read used behind failure' last operand arg below hsplit hrun hpending hcloses hread
      hstops =>
    subst hsplit
    simp only [List.length_append] at hbound
    have hne : used ≠ [] := by
      rintro rfl
      cases hrun
      cases hpending
    rw [bind_separatedBy_of_read hresult]
    exact .of_run (run?_firstArgument hne hrun) (completes_moreArgs hexpression hpending
      hcloses.reduceAll_eq hread hstops (by omega))
  | abandoned hjams hfurther hle hbroken =>
    have hcomma := just_of_broken .comma hbroken (by decide) hfurther
    have hclosing := just_of_broken .closeParen hbroken (by decide) hfurther
    rw [bind_separatedBy_of_read hresult,
      bind_of_read (many_of_failed (bind_of_failed hcomma)), bind_of_failed hclosing]
    exact .failed (hjams.firstArgument (Nat.lt_of_lt_of_le hfurther hle))
  | @failed f hjams =>
    obtain ⟨behind, expected⟩ := f
    obtain ⟨_ | ⟨lexeme, used⟩, last, rfl, hrun, hstuck, hexpected⟩ := id hjams
    · cases hrun
      cases hexpected
      rw [bind_of_read (separatedBy_of_failed hresult)]
      exact completes_noArgs hstuck
    · have hlt : behind.length < (lexeme :: used ++ behind).length := by
        simp only [List.length_cons, List.length_append]
        omega
      have hopen : ∀ other ∈ (lexeme :: used ++ behind).head?,
          other.token ≠ .mark .closeParen := by
        intro other hother
        cases hother
        exact ne_closeParen_of_run? hrun
      rw [bind_of_read (separatedBy_of_failed hresult),
        bind_of_failed ((just_of_ne hopen).trans (fail_of_further hlt))]
      exact .failed (hjams.firstArgument hlt)

theorem completes_args (target : Tree) (name : Name) (stack : List Frame)
    (hexpression : FollowsBelow bound 0 expression) {opening : Lexeme}
    (hopening : opening.token = .mark .openParen) (htried : Tried failure rest [])
    (hbound : rest.length < bound) :
    Completes (.named target name stack) (called target name stack) (opening :: rest)
      (args expression failure (opening :: rest)) := by
  have hstep : (ParseState.named target name stack).step? opening =
      some (.firstArgument target name stack) := if_pos hopening
  unfold args
  rw [bind_of_read (just_of_eq hopening)]
  exact .of_step hstep (completes_argsBehind hexpression htried hbound)

/-! ## Operands and their members -/

theorem literal_of_none (h : ∀ lexeme ∈ lexemes.head?, lexeme.token.literal? = none) :
    literal failure lexemes = fail .somethingElse failure lexemes :=
  select_of_none fun lexeme hlexeme => by rw [h lexeme hlexeme]; rfl

theorem name_of_name {lexeme : Lexeme} {text : String} (h : lexeme.token = .name text) :
    TokenParser.name failure (lexeme :: rest) = ⟨failure, some (⟨text, lexeme.span⟩, rest)⟩ :=
  select_of_some (by rw [h])

theorem name_of_ne (h : ∀ lexeme ∈ lexemes.head?, ¬ ∃ text, lexeme.token = .name text) :
    TokenParser.name failure lexemes = fail .name failure lexemes :=
  select_of_none fun lexeme hlexeme => by
    split
    · next text htext => exact absurd ⟨text, htext⟩ (h lexeme hlexeme)
    · rfl

/-- Literals and names are tried before groups. -/
theorem atom_eq_group (expression : TokenParser Tree)
    (hliteral : ∀ lexeme ∈ lexemes.head?, lexeme.token.literal? = none)
    (hname : ∀ lexeme ∈ lexemes.head?, ¬ ∃ text, lexeme.token = .name text)
    (htried : Tried failure lexemes [.somethingElse]) :
    ∃ failure', Tried failure' lexemes [.somethingElse, .name] ∧
      atom expression failure lexemes = group expression failure' lexemes := by
  have hread := (htried.failed_of_mem (List.mem_singleton_self _)).failed_of_notMem .name
    (by decide)
  refine ⟨_, hread, ?_⟩
  unfold atom
  rw [either_of_failed]
  rw [either_of_failed (literal_of_none hliteral)]
  exact bind_of_failed (name_of_ne hname)

/-- The first of the tokens starts no operand. -/
theorem completes_atom_of_none (htried : Tried failure lexemes [.somethingElse])
    (hnone : ∀ lexeme ∈ lexemes.head?, startOperand? lexeme stack = none) :
    Completes (.operand stack) (fun tree => .complete tree stack) lexemes
      (atom expression failure lexemes) := by
  have hliteral : ∀ lexeme ∈ lexemes.head?, lexeme.token.literal? = none := by
    refine fun lexeme hlexeme => Option.eq_none_iff_forall_ne_some.mpr fun value hvalue => ?_
    have hstart := hnone lexeme hlexeme
    rw [startOperand?_literal hvalue] at hstart
    cases hstart
  have hname : ∀ lexeme ∈ lexemes.head?, ¬ ∃ text, lexeme.token = .name text := by
    rintro lexeme hlexeme ⟨text, htext⟩
    have hstart := hnone lexeme hlexeme
    rw [startOperand?_name htext] at hstart
    cases hstart
  have hopen : ∀ lexeme ∈ lexemes.head?, lexeme.token ≠ .mark .openParen := by
    intro lexeme hlexeme hopen
    have hstart := hnone lexeme hlexeme
    rw [startOperand?_openParen hopen] at hstart
    cases hstart
  have hstuck : (ParseState.operand stack).Stuck lexemes := by
    cases lexemes with
    | nil => rfl
    | cons lexeme rest => exact hnone lexeme rfl
  obtain ⟨failure', hread, hatom⟩ := atom_eq_group expression hliteral hname htried
  have hfailed := hread.failed_of_notMem (.mark .openParen) (by decide)
  have hgroup : group expression failure' lexemes = ⟨some ⟨lexemes, operandStarts⟩, none⟩ :=
    (bind_of_failed (just_of_ne hopen)).trans (congrArg (Attempt.mk · none) hfailed.eq)
  rw [hatom, hgroup]
  exact .failed (.of_stuck hstuck)

/-- A literal, a name or a group. -/
theorem completes_atom (stack : List Frame) (hexpression : FollowsBelow bound 0 expression)
    (htried : Tried failure lexemes [.somethingElse])
    (hsign : ∀ lexeme ∈ lexemes.head?, lexeme.token.unaryOp? = none)
    (hbound : lexemes.length ≤ bound) :
    Completes (.operand stack) (fun tree => .complete tree stack) lexemes
      (atom expression failure lexemes) := by
  cases lexemes with
  | nil => exact completes_atom_of_none htried fun lexeme hlexeme => by cases hlexeme
  | cons lexeme rest =>
  have hpassed := htried.passed (Nat.lt_succ_self rest.length)
  cases hstart : startOperand? lexeme stack with
  | none =>
    refine completes_atom_of_none htried fun other hother => ?_
    cases hother
    exact hstart
  | some next =>
  unfold startOperand? at hstart
  split at hstart
  · next value hvalue =>
    have hread : literal failure (lexeme :: rest) =
        ⟨failure, some (.literal lexeme.span value, rest)⟩ := select_of_some (by rw [hvalue]; rfl)
    unfold atom
    rw [either_of_read (either_of_read hread)]
    exact .read [lexeme] rfl (ParseState.run?_singleton (startOperand?_literal hvalue))
      hpassed
  · next hnone =>
    have hliteral : ∀ other ∈ (lexeme :: rest).head?, other.token.literal? = none := by
      intro other hother
      cases hother
      exact hnone
    split at hstart
    · next text htext =>
      have hread := (htried.failed_of_mem (List.mem_singleton_self _)).passed
        (Nat.lt_succ_self rest.length)
      unfold atom
      rw [either_of_read ((either_of_failed (literal_of_none hliteral)).trans
        (bind_of_read (name_of_name htext)))]
      exact .read [lexeme] rfl (ParseState.run?_singleton (startOperand?_name htext))
        hread
    · next hopening =>
      have hname : ∀ other ∈ (lexeme :: rest).head?, ¬ ∃ text, other.token = .name text := by
        rintro other hother ⟨text, htext⟩
        cases hother
        rw [hopening] at htext
        cases htext
      obtain ⟨failure', hread, hatom⟩ := atom_eq_group expression hliteral hname htried
      rw [hatom]
      exact completes_group hexpression hopening (hread.passed (Nat.lt_succ_self _)) hbound
    · next mark _ hmark =>
      have hop := hsign lexeme rfl
      rw [hmark] at hop
      rw [show mark.unaryOp? = none from hop] at hstart
      cases hstart
    · cases hstart

section

variable {failure' : Option ParseFailure} {dot lexeme : Lexeme} {text : String} {receiver : Tree}
  {state : ParseState}

theorem member_of_failed (h : just .dot failure lexemes = ⟨failure', none⟩) :
    member expression failure lexemes = ⟨failure', none⟩ :=
  bind_of_failed h

theorem member_of_name (expression : TokenParser Tree) (failure : Option ParseFailure)
    (rest : List Lexeme) (hdot : dot.token = .mark .dot) (hname : lexeme.token = .name text) :
    member expression failure (dot :: lexeme :: rest) =
      (optional (args expression) >>= fun args => pure (⟨text, lexeme.span⟩, args))
        failure rest := by
  unfold member
  rw [bind_of_read (just_of_eq hdot), bind_of_read (name_of_name hname)]

/-- A name is missing behind the point. -/
theorem follows_members_of_noName (hpending : state.pending? = some (receiver, stack))
    (hdot : dot.token = .mark .dot) (htried : Tried failure rest [])
    (hname : ∀ lexeme ∈ rest.head?, ¬ ∃ text, lexeme.token = .name text) :
    FollowsStates 9 state stack (dot :: rest)
      (foldMany accessOf (member expression) receiver failure (dot :: rest)) := by
  have hstep : state.step? dot = some (.member receiver stack) := by
    rw [ParseState.step?_of_pending hpending (by rw [hdot]; decide), continue?_dot hdot]
  have hstuck : (ParseState.member receiver stack).Stuck rest := by
    cases rest with
    | nil => rfl
    | cons lexeme rest =>
      simp only [ParseState.Stuck, ParseState.step?]
      split
      · next text htext => exact absurd ⟨text, htext⟩ (hname lexeme rfl)
      · rfl
  have hfailed := htried.failed_of_notMem .name (by decide)
  have hmember : member expression failure (dot :: rest) = ⟨some ⟨rest, [.name]⟩, none⟩ := by
    unfold member
    rw [bind_of_read (just_of_eq hdot), bind_of_failed ((name_of_ne hname).trans
      (congrArg (Attempt.mk · none) hfailed.eq))]
  rw [foldMany_of_failed hmember]
  refine .abandoned ((Jams.of_stuck hstuck).of_step hstep) (Nat.lt_succ_self _) (Nat.le_refl _) ?_
  intro lexeme hlexeme
  cases hlexeme
  exact .inr (.inl hdot)

/-- Nothing behind the operand is a member. -/
theorem follows_members_of_noDot (hpending : state.pending? = some (receiver, stack))
    (htried : Tried failure lexemes state.afterName)
    (hopen : ∀ lexeme ∈ lexemes.head?, lexeme.token = .mark .openParen → state.afterName = [])
    (hnone : ∀ lexeme ∈ lexemes.head?, lexeme.token ≠ .mark .dot) :
    FollowsStates 9 state stack lexemes
      (foldMany accessOf (member expression) receiver failure lexemes) := by
  have hread : Tried _ _ (state.tried 9) := htried.failed_of_notMem (.mark .dot) <| by
    unfold ParseState.afterName
    split <;> decide
  rw [foldMany_of_failed (member_of_failed (just_of_ne hnone))]
  refine .read [] rfl rfl hpending (closes_refl 9 _ _) hread
    fun lexeme hlexeme => ⟨?_, hopen lexeme hlexeme⟩
  rintro (hdot | ⟨op, -, hlevel⟩ | ⟨-, hzero⟩)
  · exact hnone lexeme hlexeme hdot
  · have := op.level_le
    omega
  · cases hzero

/-- A member behind its name: a field, a call, or a field whose arguments are broken. -/
theorem member_cases (receiver : Tree) (stack : List Frame)
    (hexpression : FollowsBelow bound 0 expression)
    (hdot : dot.token = .mark .dot) (hname : lexeme.token = .name text)
    (htried : Tried failure rest []) (hbound : rest.length ≤ bound) :
    (∃ member' used behind failure' next, rest = used ++ behind ∧
      member expression failure (dot :: lexeme :: rest) = ⟨failure', some (member', behind)⟩ ∧
      (ParseState.named receiver ⟨text, lexeme.span⟩ stack).run? used = some next ∧
      next.pending? = some (accessOf receiver member', stack) ∧
      Tried failure' behind next.afterName ∧
      ∀ other ∈ behind.head?, other.token = .mark .openParen → next.afterName = []) ∨
    ∃ f opening behind, rest = opening :: behind ∧ opening.token = .mark .openParen ∧
      member expression failure (dot :: lexeme :: rest) =
        ⟨some f, some ((⟨text, lexeme.span⟩, none), rest)⟩ ∧
      Jams (.named receiver ⟨text, lexeme.span⟩ stack) rest f ∧
      f.rest.length < rest.length := by
  have hmember := member_of_name expression failure rest hdot hname
  obtain ⟨opening, behind, rfl, hopening⟩ | hnone :=
    exists_cons_or_not (·.token = .mark .openParen) rest
  · have hargs := completes_args receiver ⟨text, lexeme.span⟩ stack hexpression hopening
      (htried.passed (Nat.lt_succ_self behind.length)) hbound
    generalize hresult : args expression failure (opening :: behind) = result at hargs
    cases hargs with
    | @read used behind' failure' value hsplit hrun hread =>
      exact .inl ⟨_, used, behind', failure', _, hsplit,
        hmember.trans (bind_of_read (optional_of_read hresult)), hrun, rfl, hread,
        fun _ _ _ => rfl⟩
    | @failed f hjams =>
      refine .inr ⟨f, opening, behind, rfl, hopening,
        hmember.trans (bind_of_read (optional_of_failed hresult)), hjams, ?_⟩
      exact hjams.lt_of_step (if_pos hopening)
  · have hargs : args expression failure rest = fail (.mark .openParen) failure rest :=
      bind_of_failed (just_of_ne hnone)
    exact .inl ⟨_, [], rest, _, _, rfl, hmember.trans (bind_of_read (optional_of_failed hargs)),
      rfl, rfl, htried.failed_of_notMem _ List.not_mem_nil,
      fun other hother hopen => absurd hopen (hnone other hother)⟩

/-- The members behind an operand, by induction on the number of tokens. -/
theorem follows_members (hexpression : FollowsBelow bound 0 expression)
    (hpending : state.pending? = some (receiver, stack))
    (htried : Tried failure lexemes state.afterName)
    (hopen : ∀ lexeme ∈ lexemes.head?, lexeme.token = .mark .openParen → state.afterName = [])
    (hbound : lexemes.length ≤ bound) :
    FollowsStates 9 state stack lexemes
      (foldMany accessOf (member expression) receiver failure lexemes) := by
  induction hn : lexemes.length using Nat.strongRecOn generalizing
    state receiver failure lexemes with
  | _ n ih =>
  subst hn
  obtain ⟨dot, rest, rfl, hdot⟩ | hnone := exists_cons_or_not (·.token = .mark .dot) lexemes
  · have hpassed := htried.passed (Nat.lt_succ_self rest.length)
    obtain ⟨lexeme, rest, rfl, text, hname⟩ | hname :=
      exists_cons_or_not (fun lexeme => ∃ text, lexeme.token = .name text) rest
    · have hstep : state.step? dot = some (.member receiver stack) := by
        rw [ParseState.step?_of_pending hpending (by rw [hdot]; decide), continue?_dot hdot]
      have hstep' : (ParseState.member receiver stack).step? lexeme =
          some (.named receiver ⟨text, lexeme.span⟩ stack) := by
        unfold ParseState.step?
        rw [hname]
      refine .of_step hstep (.of_step hstep' ?_)
      simp only [List.length_cons] at hbound ih
      obtain ⟨member', used, behind, failure', next, rfl, hmember, hmore, hnext, hread, hopen'⟩ |
          ⟨f, opening, behind, rfl, hopening, hmember, hjams, hfurther⟩ :=
        member_cases receiver stack hexpression hdot hname
          (hpassed.passed (Nat.lt_succ_self rest.length)) (by omega)
      · simp only [List.length_append] at hbound ih
        rw [foldMany_of_read hmember (by
          simp only [List.length_cons, List.length_append]
          omega)]
        exact .of_run hmore (ih behind.length (by omega) hnext hread hopen' (by omega) rfl)
      · have hne : ∀ other ∈ (opening :: behind).head?, other.token ≠ .mark .dot := by
          intro other hother
          cases hother
          rw [hopening]
          decide
        have hnodot := (just_of_ne hne).trans (fail_of_further hfurther)
        rw [foldMany_of_read hmember (by simp), foldMany_of_failed (member_of_failed hnodot)]
        refine .abandoned hjams hfurther (Nat.le_refl _) fun other hother => ?_
        cases hother
        exact .inl hopening
    · exact follows_members_of_noName hpending hdot hpassed hname
  · exact follows_members_of_noDot hpending htried hopen hnone

/-- Operands and their members follow the states, where no sign stands in front of them. -/
theorem follows_access (stack : List Frame) (hexpression : FollowsBelow bound 0 expression)
    (htried : Tried failure lexemes [.somethingElse])
    (hsign : ∀ lexeme ∈ lexemes.head?, lexeme.token.unaryOp? = none)
    (hbound : lexemes.length ≤ bound) :
    FollowsStates 9 (.operand stack) stack lexemes (access expression failure lexemes) := by
  have hatom := completes_atom stack hexpression htried hsign hbound
  unfold access
  generalize hresult : atom expression failure lexemes = result at hatom
  cases hatom with
  | read used hsplit hrun hread =>
    subst hsplit
    rw [List.length_append] at hbound
    rw [bind_of_read hresult]
    exact .of_run hrun (follows_members hexpression rfl hread (fun _ _ _ => rfl) (by omega))
  | failed hjams =>
    rw [bind_of_failed hresult]
    exact .failed hjams

end

/-! ## Signs in front of operands -/

theorem unaryOp_eq_select : unaryOp = select .somethingElse fun lexeme =>
    lexeme.token.unaryOp?.map fun op => (op, lexeme.span) := by
  refine congrArg (select .somethingElse) (funext fun ⟨token, span⟩ => ?_)
  cases token with
  | mark mark => cases mark <;> rfl
  | _ => rfl

theorem unaryOp_of_some {sign : Lexeme} {op : UnaryOp} (h : sign.token.unaryOp? = some op) :
    unaryOp failure (sign :: rest) = ⟨failure, some ((op, sign.span), rest)⟩ := by
  rw [unaryOp_eq_select]
  exact select_of_some (by rw [h]; rfl)

theorem unaryOp_of_none (h : ∀ lexeme ∈ lexemes.head?, lexeme.token.unaryOp? = none) :
    unaryOp failure lexemes = fail .somethingElse failure lexemes := by
  rw [unaryOp_eq_select]
  exact select_of_none fun lexeme hlexeme => by rw [h lexeme hlexeme]; rfl

/-- A sign in front of what may have signs itself. -/
theorem unary_of_sign {sign : Lexeme} {op : UnaryOp} (h : sign.token.unaryOp? = some op) :
    unary expression failure (sign :: rest) =
      (unary expression >>= fun operand =>
        pure (.unary (sign.span.to operand.span) op operand)) failure rest := by
  conv => lhs; unfold unary
  rw [bind_many_of_read (unaryOp_of_some h) (Nat.lt_succ_self _)]
  obtain ⟨f, ops, behind, hops⟩ := many_succeeds unaryOp failure rest
  rcases hoperand : access expression f behind with ⟨f', _ | ⟨operand, behind'⟩⟩
  · have hunary : unary expression failure rest = ⟨f', none⟩ := by
      unfold unary
      rw [bind_of_read hops, bind_of_failed hoperand]
    rw [bind_of_read hops, bind_of_failed hoperand, bind_of_failed hunary]
  · have hunary : unary expression failure rest = ⟨f', some (signed ops operand, behind')⟩ := by
      unfold unary
      rw [bind_of_read hops, bind_of_read hoperand]
      rfl
    rw [bind_of_read hops, bind_of_read hoperand, bind_of_read hunary]
    rfl

/-- An operand without a sign in front. -/
theorem follows_unary_of_none (hexpression : FollowsBelow bound 0 expression)
    (htried : Tried failure lexemes [])
    (hsign : ∀ lexeme ∈ lexemes.head?, lexeme.token.unaryOp? = none)
    (hbound : lexemes.length ≤ bound) :
    FollowsStates 8 (.operand stack) stack lexemes (unary expression failure lexemes) := by
  have haccess := follows_access stack hexpression
    (htried.failed_of_notMem _ List.not_mem_nil) hsign hbound
  unfold unary
  rw [bind_of_read (many_of_failed (unaryOp_of_none hsign))]
  generalize hresult : access expression _ lexemes = result at haccess
  cases haccess with
  | read used hsplit hrun hpending hcloses hread hstops =>
    rw [bind_of_read hresult]
    refine .read _ hsplit hrun hpending hcloses.loosen hread fun lexeme hlexeme => ?_
    rw [continues_eight]
    exact hstops lexeme hlexeme
  | abandoned hjams hfurther hle hbroken =>
    rw [bind_of_read hresult]
    exact .abandoned hjams hfurther hle hbroken.loosen
  | failed hjams =>
    rw [bind_of_failed hresult]
    exact .failed hjams

/-- Signs and their operands follow the states. -/
theorem follows_unary (hexpression : FollowsBelow bound 0 expression) :
    FollowsBelow (bound + 1) 8 (unary expression) := by
  intro failure lexemes stack hbound htried _
  induction lexemes generalizing failure stack with
  | nil =>
    exact follows_unary_of_none hexpression htried (fun lexeme hlexeme => by cases hlexeme)
      (Nat.zero_le bound)
  | cons sign rest ih =>
    cases hsign : sign.token.unaryOp? with
    | none =>
      refine follows_unary_of_none hexpression htried (fun lexeme hlexeme => ?_)
        (Nat.le_of_lt_succ hbound)
      cases hlexeme
      exact hsign
    | some op =>
      have hstep : (ParseState.operand stack).step? sign =
          some (.operand (.unary op sign.span :: stack)) := startOperand?_unaryOp hsign
      have hinner := ih failure (.unary op sign.span :: stack) (Nat.lt_of_succ_lt hbound)
        (htried.passed (Nat.lt_succ_self _)) (Nat.le_refl 8)
      rw [unary_of_sign hsign]
      generalize hresult : unary expression failure rest = result at hinner
      cases hinner with
      | read used hsplit hrun hpending hcloses hread hstops =>
        rw [bind_of_read hresult]
        exact .of_step hstep (.read _ hsplit hrun hpending hcloses.unary hread hstops)
      | abandoned hjams hfurther hle hbroken =>
        rw [bind_of_read hresult]
        exact .abandoned (hjams.of_step hstep) hfurther (Nat.le_succ_of_le hle) hbroken
      | failed hjams =>
        rw [bind_of_failed hresult]
        exact .failed (hjams.of_step hstep)

end

end BindingPlan
