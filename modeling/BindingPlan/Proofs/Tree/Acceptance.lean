import BindingPlan.Proofs.Tree.Grammar

/-!
# What the parser accepts

Reading derived tokens leaves their tree behind, whatever is open in front of them and does not take
the tree apart. So the parser returns the tree of derived tokens.

Main results:

* `Derives.readsAs`: reading derived tokens leaves their tree behind.
* `Derives.parseTokens_eq`: the parser returns the tree of derived tokens.
-/

namespace BindingPlan

/-! ## Reading -/

namespace ParseState

/-- The state after some more tokens; `none` if one of them is impossible. -/
def run? (state : ParseState) : List Lexeme → Option ParseState
  | [] => some state
  | lexeme :: lexemes => (state.step? lexeme).bind (run? · lexemes)

theorem run?_append (state : ParseState) (l r : List Lexeme) :
    state.run? (l ++ r) = (state.run? l).bind (run? · r) := by
  induction l generalizing state with
  | nil => rfl
  | cons lexeme l ih =>
    rw [List.cons_append, run?, run?]
    cases state.step? lexeme with
    | none => rfl
    | some next => exact ih next

/-- The operand that was read last, and what was open in front of it. -/
def pending? : ParseState → Option (Tree × List Frame)
  | .named receiver name stack => some (fieldOf receiver name, stack)
  | .complete last stack => some (last, stack)
  | _ => none

theorem finish?_eq_some_iff {state : ParseState} {tree : Tree} :
    state.finish? = some tree ↔
      ∃ operand stack, state.pending? = some (operand, stack) ∧
        reduceAll stack operand = (tree, []) := by
  unfold finish? pending?
  cases state with
  | operand | firstArgument | member => simp
  | named receiver name stack =>
    rcases hresult : reduceAll stack (fieldOf receiver name) with ⟨value, _ | _⟩ <;>
      simp [hresult, and_assoc]
  | complete last stack =>
    rcases hresult : reduceAll stack last with ⟨value, _ | _⟩ <;>
      simp [hresult, and_assoc]

/-- An operand goes on unless a parenthesis opens behind a member name. -/
theorem step?_of_pending {state : ParseState} {operand : Tree} {stack : List Frame}
    {lexeme : Lexeme} (h : state.pending? = some (operand, stack))
    (hopen : lexeme.token ≠ .mark .openParen) :
    state.step? lexeme = continue? lexeme operand stack := by
  unfold pending? at h
  split at h
  · obtain ⟨rfl, rfl⟩ := Prod.mk.inj (Option.some.inj h)
    exact if_neg hopen
  · obtain ⟨rfl, rfl⟩ := Prod.mk.inj (Option.some.inj h)
    rfl
  · cases h

end ParseState

theorem parseFrom_eq_ok_iff {stop : Nat} {state : ParseState} {lexemes : List Lexeme}
    {tree : Tree} : parseFrom stop state lexemes = .ok tree ↔
      ∃ last operand stack, state.run? lexemes = some last ∧
        last.pending? = some (operand, stack) ∧ reduceAll stack operand = (tree, []) := by
  induction lexemes generalizing state with
  | nil =>
    have hfinish : parseFrom stop state [] = .ok tree ↔ state.finish? = some tree := by
      unfold parseFrom
      cases state.finish? <;> simp
    rw [hfinish, ParseState.finish?_eq_some_iff]
    simp [ParseState.run?]
  | cons lexeme lexemes ih =>
    unfold parseFrom ParseState.run?
    cases state.step? lexeme with
    | none => simp
    | some next => simpa using ih

/-! ## Reducing -/

/-- Nothing on top of the stack takes an operand of the level from its construct. -/
def Fits (level : Nat) : List Frame → Prop
  | .unary _ _ :: _ => 8 ≤ level
  | .operator op _ :: _ => op.level + 1 < level
  | _ => True

theorem Fits.mono {level tighter : Nat} {stack : List Frame} (h : Fits level stack)
    (hle : level ≤ tighter) : Fits tighter stack := by
  unfold Fits at *
  split at h <;> omega

/-- Operands with an operator in front fit everywhere. -/
theorem fits_of_unary {level : Nat} (h : 8 ≤ level) (stack : List Frame) : Fits level stack := by
  unfold Fits
  split
  · exact h
  · next op _ _ =>
    have := op.level_le
    omega
  · trivial

theorem reduceTo_of_fits {level : Nat} {stack : List Frame} (h : Fits (level + 1) stack)
    (hlevel : level ≤ 6) (operand : Tree) : reduceTo level stack operand = (operand, stack) := by
  cases stack with
  | nil => rfl
  | cons frame stack =>
    cases frame with
    | unary op start =>
      have h : 8 ≤ level + 1 := h
      omega
    | operator op lhs =>
      have h : op.level + 1 < level + 1 := h
      exact if_neg (by omega)
    | ifTrue | ifFalse | group | arguments => rfl

theorem reduceTo_operator {level : Nat} {op : InfixOp} (h : level ≤ op.level) (lhs operand : Tree)
    (stack : List Frame) : reduceTo level (.operator op lhs :: stack) operand =
      reduceTo level stack (op.join lhs operand) := by
  rw [reduceTo, if_pos h]

/-! ## Tokens -/

section

variable {lexeme : Lexeme} {stack : List Frame} {operand : Tree}

theorem startOperand?_literal {value : Literal} (h : lexeme.token.literal? = some value) :
    startOperand? lexeme stack = some (.complete (.literal lexeme.span value) stack) := by
  unfold startOperand?
  rw [h]

theorem startOperand?_name {text : String} (h : lexeme.token = .name text) :
    startOperand? lexeme stack = some (.complete (.ident lexeme.span text) stack) := by
  unfold startOperand?
  rw [h]
  rfl

theorem startOperand?_openParen (h : lexeme.token = .mark .openParen) :
    startOperand? lexeme stack = some (.operand (.group lexeme.span :: stack)) := by
  unfold startOperand?
  rw [h]
  rfl

theorem startOperand?_unaryOp {op : UnaryOp} (h : lexeme.token.unaryOp? = some op) :
    startOperand? lexeme stack = some (.operand (.unary op lexeme.span :: stack)) := by
  unfold startOperand?
  unfold Token.unaryOp? at h
  split at h
  · next mark htoken =>
    rw [htoken]
    cases mark <;> first | cases h; rfl | cases h
  · cases h

theorem startOperand?_closeParen (h : lexeme.token = .mark .closeParen) :
    startOperand? lexeme stack = none := by
  unfold startOperand?
  rw [h]
  rfl

theorem continue?_infixOp {op : InfixOp} (h : lexeme.token.infixOp? = some op) :
    continue? lexeme operand stack =
      some (.operand (.operator op (reduceTo op.level stack operand).1 ::
        (reduceTo op.level stack operand).2)) := by
  unfold continue?
  unfold Token.infixOp? at h
  split at h
  · next mark htoken =>
    rw [htoken]
    cases mark <;> first | cases h; rfl | cases h
  · cases h

theorem continue?_question (h : lexeme.token = .mark .question) :
    continue? lexeme operand stack =
      some (.operand (.ifTrue (reduceTo 0 stack operand).1 :: (reduceTo 0 stack operand).2)) := by
  unfold continue?
  rw [h]

variable {value predicate target : Tree} {name : Name} {args : List Tree} {start : Span}
  {rest : List Frame}

theorem continue?_colon (h : lexeme.token = .mark .colon)
    (hclosed : reduceAll stack operand = (value, .ifTrue predicate :: rest)) :
    continue? lexeme operand stack = some (.operand (.ifFalse predicate value :: rest)) := by
  unfold continue?
  rw [h, hclosed]

theorem continue?_comma (h : lexeme.token = .mark .comma)
    (hclosed : reduceAll stack operand = (value, .arguments target name args :: rest)) :
    continue? lexeme operand stack =
      some (.operand (.arguments target name (args ++ [value]) :: rest)) := by
  unfold continue?
  rw [h, hclosed]

theorem continue?_closeGroup (h : lexeme.token = .mark .closeParen)
    (hclosed : reduceAll stack operand = (value, .group start :: rest)) :
    continue? lexeme operand stack =
      some (.complete (.group (start.to lexeme.span) value) rest) := by
  unfold continue?
  rw [h, hclosed]

theorem continue?_closeCall (h : lexeme.token = .mark .closeParen)
    (hclosed : reduceAll stack operand = (value, .arguments target name args :: rest)) :
    continue? lexeme operand stack = some
      (.complete (.call (target.span.to lexeme.span) target name (args ++ [value])) rest) := by
  unfold continue?
  rw [h, hclosed]

theorem continue?_dot (h : lexeme.token = .mark .dot) :
    continue? lexeme operand stack = some (.member operand stack) := by
  unfold continue?
  rw [h]

end

theorem infixOp?_ne_openParen {token : Token} {op : InfixOp} (h : token.infixOp? = some op) :
    token ≠ .mark .openParen := by
  rintro rfl
  cases h

/-! ## What derivations read -/

/-- The operand and what is open in front of it are closed like the tree over the stack. -/
structure Closes (level : Nat) (operand : Tree) (rest : List Frame) (tree : Tree)
    (stack : List Frame) : Prop where
  reduceAll_eq : reduceAll rest operand = reduceAll stack tree
  reduceTo_eq : ∀ k < level, reduceTo k rest operand = reduceTo k stack tree
  /-- Nothing is left open behind a member, a literal, a name, or a group. -/
  eq_of_member : 9 ≤ level → operand = tree ∧ rest = stack

theorem closes_refl (level : Nat) (tree : Tree) (stack : List Frame) :
    Closes level tree stack tree stack :=
  ⟨rfl, fun _ _ => rfl, fun _ => ⟨rfl, rfl⟩⟩

section

variable {level : Nat} {last tree lhs rhs operand predicate ifTrue ifFalse : Tree}
  {rest stack : List Frame} {op : InfixOp} {sign question : Lexeme} {state : ParseState}

theorem Closes.loosen (h : Closes (level + 1) last rest tree stack) :
    Closes level last rest tree stack :=
  ⟨h.reduceAll_eq, fun k hk => h.reduceTo_eq k (Nat.lt_succ_of_lt hk),
    fun hlevel => h.eq_of_member (Nat.le_succ_of_le hlevel)⟩

theorem Closes.unary {op : UnaryOp} {start : Span}
    (h : Closes 8 last rest operand (.unary op start :: stack)) :
    Closes 8 last rest (.unary (start.to operand.span) op operand) stack :=
  ⟨h.reduceAll_eq, h.reduceTo_eq, fun hlevel => absurd hlevel (by decide)⟩

theorem Closes.operator (h : Closes (op.level + 2) last rest rhs (.operator op lhs :: stack)) :
    Closes (op.level + 1) last rest (op.join lhs rhs) stack := by
  have hlevel := op.level_le
  refine ⟨h.reduceAll_eq, fun k hk => ?_, fun _ => by omega⟩
  rw [h.reduceTo_eq k (Nat.lt_succ_of_lt hk), reduceTo_operator (Nat.le_of_lt_succ hk)]

theorem Closes.ternary (h : Closes 0 last rest ifFalse (.ifFalse predicate ifTrue :: stack)) :
    Closes 0 last rest (.ternary (predicate.span.to ifFalse.span) predicate ifTrue ifFalse) stack :=
  ⟨h.reduceAll_eq, fun k hk => absurd hk (Nat.not_lt_zero k),
    fun hlevel => absurd hlevel (by decide)⟩

/-- An operator takes the operand in front of it that is closed at its level. -/
theorem Closes.step?_infixOp (h : Closes (op.level + 1) last rest lhs stack)
    (hpending : state.pending? = some (last, rest)) (hfits : Fits (op.level + 1) stack)
    (hsign : sign.token.infixOp? = some op) :
    state.step? sign = some (.operand (.operator op lhs :: stack)) := by
  rw [ParseState.step?_of_pending hpending (infixOp?_ne_openParen hsign),
    continue?_infixOp hsign, h.reduceTo_eq _ (Nat.lt_succ_self _),
    reduceTo_of_fits hfits op.level_le]

/-- `?` takes a predicate that is closed down to `??`. -/
theorem Closes.step?_question (h : Closes 1 last rest predicate stack)
    (hpending : state.pending? = some (last, rest)) (hfits : Fits 1 stack)
    (hquestion : question.token = .mark .question) :
    state.step? question = some (.operand (.ifTrue predicate :: stack)) := by
  rw [ParseState.step?_of_pending hpending (by rw [hquestion]; decide),
    continue?_question hquestion, h.reduceTo_eq 0 Nat.one_pos,
    reduceTo_of_fits hfits (by decide)]

end

/-- Reading the tokens over a stack where the tree fits leaves the tree behind. -/
def ReadsAs (level : Nat) (lexemes : List Lexeme) (tree : Tree) : Prop :=
  ∀ stack, Fits level stack → ∃ state operand rest,
    (ParseState.operand stack).run? lexemes = some state ∧
      state.pending? = some (operand, rest) ∧ Closes level operand rest tree stack

/-- Reading the tokens behind the opening parenthesis of a call leaves the arguments behind, all but
the last one closed. -/
def ReadsAsArgs (lexemes : List Lexeme) (args : List Tree) : Prop :=
  ∀ target name stack, ∃ state operand rest done last,
    (ParseState.operand (.arguments target name [] :: stack)).run? lexemes = some state ∧
      state.pending? = some (operand, rest) ∧
      reduceAll rest operand = (last, .arguments target name done :: stack) ∧ args = done ++ [last]

theorem ParseState.run?_append_cons {state middle next : ParseState} {l r : List Lexeme}
    {lexeme : Lexeme} (h : state.run? l = some middle) (hstep : middle.step? lexeme = some next) :
    state.run? (l ++ lexeme :: r) = next.run? r := by
  rw [run?_append, h, Option.bind_some, run?, hstep, Option.bind_some]

section

variable {l r p t f a : List Lexeme} {lexeme sign dot name opening closing comma : Lexeme}
  {tree lhs rhs operand receiver inner predicate ifTrue ifFalse arg : Tree} {args : List Tree}
  {level : Nat} {text : String}

theorem readsAs_loosen (h : ReadsAs (level + 1) l tree) : ReadsAs level l tree := by
  intro stack hfits
  obtain ⟨state, operand, rest, hrun, hpending, hcloses⟩ := h stack (hfits.mono (Nat.le_succ _))
  exact ⟨state, operand, rest, hrun, hpending, hcloses.loosen⟩

theorem readsAs_literal {value : Literal} (h : LiteralToken lexeme.token value) :
    ReadsAs 10 [lexeme] (.literal lexeme.span value) := by
  intro stack _
  refine ⟨.complete (.literal lexeme.span value) stack, _, _, ?_, rfl, closes_refl _ _ _⟩
  show (startOperand? lexeme stack).bind _ = _
  rw [startOperand?_literal (literalToken_iff.mp h)]
  rfl

theorem readsAs_ident (h : lexeme.token = .name text) :
    ReadsAs 10 [lexeme] (.ident lexeme.span text) := by
  intro stack _
  refine ⟨.complete (.ident lexeme.span text) stack, _, _, ?_, rfl, closes_refl _ _ _⟩
  show (startOperand? lexeme stack).bind _ = _
  rw [startOperand?_name h]
  rfl

theorem readsAs_group (hopening : opening.token = .mark .openParen) (h : ReadsAs 0 l inner)
    (hclosing : closing.token = .mark .closeParen) :
    ReadsAs 10 (opening :: (l ++ [closing])) (.group (opening.span.to closing.span) inner) := by
  intro stack _
  obtain ⟨state, operand, rest, hrun, hpending, hcloses⟩ :=
    h (.group opening.span :: stack) trivial
  have hstep : state.step? closing =
      some (.complete (.group (opening.span.to closing.span) inner) stack) := by
    rw [ParseState.step?_of_pending hpending (by rw [hclosing]; decide),
      continue?_closeGroup hclosing hcloses.reduceAll_eq]
  refine ⟨.complete (.group (opening.span.to closing.span) inner) stack, _, _, ?_, rfl,
    closes_refl _ _ _⟩
  show (startOperand? opening stack).bind _ = _
  rw [startOperand?_openParen hopening, Option.bind_some, ParseState.run?_append_cons hrun hstep]
  rfl

/-- A member of what is complete. -/
theorem run?_member (h : ReadsAs 9 l receiver) (hdot : dot.token = .mark .dot)
    (hname : name.token = .name text) (stack : List Frame) :
    (ParseState.operand stack).run? (l ++ [dot, name]) =
      some (.named receiver ⟨text, name.span⟩ stack) := by
  obtain ⟨state, operand, rest, hrun, hpending, hcloses⟩ :=
    h stack (fits_of_unary (by decide) stack)
  obtain ⟨rfl, rfl⟩ := hcloses.eq_of_member (Nat.le_refl 9)
  have hstep : state.step? dot = some (.member operand rest) := by
    rw [ParseState.step?_of_pending hpending (by rw [hdot]; decide), continue?_dot hdot]
  rw [ParseState.run?_append_cons hrun hstep]
  unfold ParseState.run? ParseState.step?
  rw [hname]
  rfl

theorem readsAs_field (h : ReadsAs 9 l receiver) (hdot : dot.token = .mark .dot)
    (hname : name.token = .name text) :
    ReadsAs 9 (l ++ [dot, name]) (fieldOf receiver ⟨text, name.span⟩) :=
  fun stack _ => ⟨_, _, _, run?_member h hdot hname stack, rfl, closes_refl _ _ _⟩

theorem run?_call (h : ReadsAs 9 l receiver) (hdot : dot.token = .mark .dot)
    (hname : name.token = .name text) (hopening : opening.token = .mark .openParen)
    (stack : List Frame) (r : List Lexeme) :
    (ParseState.operand stack).run? (l ++ dot :: name :: opening :: r) =
      (ParseState.firstArgument receiver ⟨text, name.span⟩ stack).run? r := by
  have hstep : (ParseState.named receiver ⟨text, name.span⟩ stack).step? opening =
      some (.firstArgument receiver ⟨text, name.span⟩ stack) := if_pos hopening
  have hnamed := run?_member h hdot hname stack
  rw [← ParseState.run?_append_cons hnamed hstep, List.append_assoc]
  rfl

theorem readsAs_emptyCall (h : ReadsAs 9 l receiver) (hdot : dot.token = .mark .dot)
    (hname : name.token = .name text) (hopening : opening.token = .mark .openParen)
    (hclosing : closing.token = .mark .closeParen) :
    ReadsAs 9 (l ++ [dot, name, opening, closing])
      (.call (receiver.span.to closing.span) receiver ⟨text, name.span⟩ []) := by
  intro stack _
  refine ⟨.complete (.call (receiver.span.to closing.span) receiver ⟨text, name.span⟩ []) stack,
    _, _, ?_, rfl, closes_refl _ _ _⟩
  have hstep : (ParseState.firstArgument receiver ⟨text, name.span⟩ stack).step? closing =
      some (.complete
        (.call (receiver.span.to closing.span) receiver ⟨text, name.span⟩ []) stack) :=
    if_pos hclosing
  rw [run?_call h hdot hname hopening, ParseState.run?, hstep]
  rfl

/-- The first token of an operand does not close a parenthesis. -/
theorem ne_closeParen_of_run? {stack : List Frame} {last : ParseState}
    (h : (ParseState.operand stack).run? (lexeme :: l) = some last) :
    lexeme.token ≠ .mark .closeParen := by
  intro hclose
  unfold ParseState.run? at h
  change (startOperand? lexeme _).bind _ = _ at h
  rw [startOperand?_closeParen hclose] at h
  cases h

/-- The first argument of a call is read as any other one. -/
theorem run?_firstArgument {target : Tree} {name : Name} {stack : List Frame}
    {last : ParseState} (hne : l ≠ [])
    (h : (ParseState.operand (.arguments target name [] :: stack)).run? l = some last) :
    (ParseState.firstArgument target name stack).run? l = some last := by
  cases l with
  | nil => exact absurd rfl hne
  | cons lexeme l =>
    have hstep : (ParseState.firstArgument target name stack).step? lexeme =
        (ParseState.operand (.arguments target name [] :: stack)).step? lexeme :=
      if_neg (ne_closeParen_of_run? h)
    rwa [ParseState.run?, hstep]

theorem readsAs_call (h : ReadsAs 9 l receiver) (hdot : dot.token = .mark .dot)
    (hname : name.token = .name text) (hopening : opening.token = .mark .openParen)
    (hargs : ReadsAsArgs a args) (hclosing : closing.token = .mark .closeParen) :
    ReadsAs 9 (l ++ dot :: name :: opening :: (a ++ [closing]))
      (.call (receiver.span.to closing.span) receiver ⟨text, name.span⟩ args) := by
  intro stack _
  obtain ⟨state, operand, rest, done, last, hrun, hpending, hclosed, rfl⟩ :=
    hargs receiver ⟨text, name.span⟩ stack
  have hstep : state.step? closing = some (.complete (.call (receiver.span.to closing.span)
      receiver ⟨text, name.span⟩ (done ++ [last])) stack) := by
    rw [ParseState.step?_of_pending hpending (by rw [hclosing]; decide),
      continue?_closeCall hclosing hclosed]
  refine ⟨.complete (.call (receiver.span.to closing.span) receiver ⟨text, name.span⟩
    (done ++ [last])) stack, _, _, ?_, rfl, closes_refl _ _ _⟩
  have hne : a ≠ [] := by
    rintro rfl
    cases hrun
    cases hpending
  rw [run?_call h hdot hname hopening,
    ParseState.run?_append_cons (run?_firstArgument hne hrun) hstep]
  rfl

theorem readsAsArgs_first (h : ReadsAs 0 l arg) : ReadsAsArgs l [arg] := by
  intro target name stack
  obtain ⟨state, operand, rest, hrun, hpending, hcloses⟩ :=
    h (.arguments target name [] :: stack) trivial
  exact ⟨state, operand, rest, [], arg, hrun, hpending, hcloses.reduceAll_eq, rfl⟩

theorem readsAsArgs_next (hargs : ReadsAsArgs a args) (hcomma : comma.token = .mark .comma)
    (h : ReadsAs 0 l arg) : ReadsAsArgs (a ++ comma :: l) (args ++ [arg]) := by
  intro target name stack
  obtain ⟨state, operand, rest, done, last, hrun, hpending, hclosed, rfl⟩ :=
    hargs target name stack
  have hstep : state.step? comma =
      some (.operand (.arguments target name (done ++ [last]) :: stack)) := by
    rw [ParseState.step?_of_pending hpending (by rw [hcomma]; decide),
      continue?_comma hcomma hclosed]
  obtain ⟨state, operand, rest, hrun', hpending', hcloses⟩ :=
    h (.arguments target name (done ++ [last]) :: stack) trivial
  refine ⟨state, operand, rest, done ++ [last], arg, ?_, hpending', hcloses.reduceAll_eq, rfl⟩
  rw [ParseState.run?_append_cons hrun hstep, hrun']

theorem readsAs_unary {mark : Mark} {op : UnaryOp} (hop : PrefixSign mark op)
    (hsign : sign.token = .mark mark) (h : ReadsAs 8 l operand) :
    ReadsAs 8 (sign :: l) (.unary (sign.span.to operand.span) op operand) := by
  intro stack _
  obtain ⟨state, last, rest, hrun, hpending, hcloses⟩ :=
    h (.unary op sign.span :: stack) (Nat.le_refl 8)
  refine ⟨state, last, rest, ?_, hpending, hcloses.unary⟩
  show (startOperand? sign stack).bind _ = _
  rw [startOperand?_unaryOp (Token.unaryOp?_eq_some_iff.mpr ⟨mark, hsign, hop⟩), Option.bind_some,
    hrun]

theorem readsAs_operator {op : InfixOp} (hlhs : ReadsAs (op.level + 1) l lhs)
    (hsign : sign.token.infixOp? = some op) (hrhs : ReadsAs (op.level + 2) r rhs) :
    ReadsAs (op.level + 1) (l ++ sign :: r) (op.join lhs rhs) := by
  intro stack hfits
  obtain ⟨state, last, rest, hrun, hpending, hcloses⟩ := hlhs stack hfits
  have hstep := hcloses.step?_infixOp hpending hfits hsign
  obtain ⟨state, last, rest, hrun', hpending', hcloses⟩ :=
    hrhs (.operator op lhs :: stack) (Nat.lt_succ_self _)
  refine ⟨state, last, rest, ?_, hpending', hcloses.operator⟩
  rw [ParseState.run?_append_cons hrun hstep, hrun']

theorem readsAs_coalesce (hlhs : ReadsAs 1 l lhs) (hsign : sign.token = .mark .coalesce)
    (hrhs : ReadsAs 2 r rhs) :
    ReadsAs 1 (l ++ sign :: r) (.coalesce (lhs.span.to rhs.span) lhs rhs) := by
  have hop : sign.token.infixOp? = some .coalesce :=
    Token.infixOp?_eq_some_iff.mpr ⟨_, hsign, rfl⟩
  have hlhs : ReadsAs (InfixOp.coalesce.level + 1) l lhs := hlhs
  exact readsAs_operator hlhs hop hrhs

theorem readsAs_binary {mark : Mark} {op : BinaryOp} (hop : InfixSign level mark op)
    (hlhs : ReadsAs level l lhs) (hsign : sign.token = .mark mark)
    (hrhs : ReadsAs (level + 1) r rhs) :
    ReadsAs level (l ++ sign :: r) (.binary (lhs.span.to rhs.span) op lhs rhs) := by
  obtain ⟨htable, rfl⟩ := infixSign_iff.mp hop
  exact readsAs_operator hlhs (Token.infixOp?_eq_some_iff.mpr ⟨mark, hsign, htable⟩) hrhs

theorem readsAs_ternary {question colon : Lexeme} (hp : ReadsAs 1 p predicate)
    (hquestion : question.token = .mark .question) (ht : ReadsAs 0 t ifTrue)
    (hcolon : colon.token = .mark .colon) (hf : ReadsAs 0 f ifFalse) :
    ReadsAs 0 (p ++ question :: (t ++ colon :: f))
      (.ternary (predicate.span.to ifFalse.span) predicate ifTrue ifFalse) := by
  intro stack hfits
  have hfits' := hfits.mono (Nat.zero_le 1)
  obtain ⟨state, operand, rest, hrun, hpending, hcloses⟩ := hp stack hfits'
  rw [ParseState.run?_append_cons hrun (hcloses.step?_question hpending hfits' hquestion)]
  obtain ⟨state, operand, rest, hrun, hpending, hcloses⟩ := ht (.ifTrue predicate :: stack) trivial
  have hstep : state.step? colon = some (.operand (.ifFalse predicate ifTrue :: stack)) := by
    rw [ParseState.step?_of_pending hpending (by rw [hcolon]; decide),
      continue?_colon hcolon hcloses.reduceAll_eq]
  rw [ParseState.run?_append_cons hrun hstep]
  obtain ⟨state, operand, rest, hrun, hpending, hcloses⟩ :=
    hf (.ifFalse predicate ifTrue :: stack) trivial
  exact ⟨state, operand, rest, hrun, hpending, hcloses.ternary⟩

end

mutual

/-- Reading derived tokens leaves their tree behind. -/
theorem Derives.readsAs {level : Nat} {l : List Lexeme} {tree : Tree} :
    Derives level l tree → ReadsAs level l tree
  | .ternary hp hquestion ht hcolon hf =>
    readsAs_ternary hp.readsAs hquestion ht.readsAs hcolon hf.readsAs
  | .coalesce hlhs hsign hrhs => readsAs_coalesce hlhs.readsAs hsign hrhs.readsAs
  | .binary hop hlhs hsign hrhs => readsAs_binary hop hlhs.readsAs hsign hrhs.readsAs
  | .unary hop hsign h => readsAs_unary hop hsign h.readsAs
  | .field h hdot hname => readsAs_field h.readsAs hdot hname
  | .call h hdot hname hopening hargs hclosing =>
    readsAs_call h.readsAs hdot hname hopening hargs.readsAs hclosing
  | .emptyCall h hdot hname hopening hclosing =>
    readsAs_emptyCall h.readsAs hdot hname hopening hclosing
  | .literal h => readsAs_literal h
  | .ident h => readsAs_ident h
  | .group hopening h hclosing => readsAs_group hopening h.readsAs hclosing
  | .loosen h => readsAs_loosen h.readsAs

theorem DerivesArgs.readsAs {l : List Lexeme} {args : List Tree} :
    DerivesArgs l args → ReadsAsArgs l args
  | .first h => readsAsArgs_first h.readsAs
  | .next hargs hcomma h => readsAsArgs_next hargs.readsAs hcomma h.readsAs

end

/-- The parser returns the tree of derived tokens. -/
theorem Derives.parseTokens_eq {lexemes : List Lexeme} {tree : Tree} (h : Derives 0 lexemes tree)
    (stop : Nat) : parseTokens stop lexemes = .ok tree := by
  obtain ⟨state, operand, rest, hrun, hpending, hcloses⟩ := h.readsAs [] trivial
  exact parseFrom_eq_ok_iff.mpr ⟨state, operand, rest, hrun, hpending, hcloses.reduceAll_eq⟩

end BindingPlan
