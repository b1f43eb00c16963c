import BindingPlan.Proofs.Token.Spelling
import BindingPlan.Proofs.Tree.Parts

/-!
# The tokens of printed trees

A printed tree is a row of words, each followed by what ends it: an operator stands between blanks,
and an operand in front of a blank, a comma, a closing parenthesis or the point of an access. So the
text of a tree spells the tokens that it was written from.

Main definitions:

* `Tree.Legible`: all literals read back, all names are words, and no receiver is an operator in
  front of an operand, since those are printed without parentheses.
* `Tree.tokens`: the tokens of a printed tree.

Main results:

* `Tree.spells`: the text of a legible tree spells its tokens.
-/

namespace BindingPlan

/-! ## Legible trees -/

/-- Whether the tree is an operator in front of an operand, maybe in parentheses. -/
def Tree.isUnary : Tree → Bool
  | .unary _ _ _ => true
  | .group _ inner => inner.isUnary
  | _ => false

/-- What one construct needs to parse back: a literal that reads back, names that are words, and no
operator in front of a receiver. -/
def Tree.LegibleHere : Tree → Prop
  | .literal _ value => value.Legible
  | .ident _ name => LexesAsName name
  | .field _ receiver name => receiver.isUnary = false ∧ LexesAsName name.text
  | .call _ target name _ => target.isUnary = false ∧ LexesAsName name.text
  | _ => True

/-- The construct and all its parts are legible. -/
inductive Tree.Legible : Tree → Prop
  | intro {tree : Tree} (here : tree.LegibleHere) (parts : ∀ part ∈ tree.parts, Legible part) :
      Legible tree

theorem Tree.Legible.here {tree : Tree} (h : tree.Legible) : tree.LegibleHere := by
  cases h with
  | intro here _ => exact here

theorem Tree.Legible.parts {tree : Tree} (h : tree.Legible) :
    ∀ part ∈ tree.parts, part.Legible := by
  cases h with
  | intro _ parts => exact parts

theorem Tree.legible_iff {tree : Tree} :
    tree.Legible ↔ tree.LegibleHere ∧ ∀ part ∈ tree.parts, part.Legible :=
  ⟨fun h => ⟨h.here, h.parts⟩, fun h => .intro h.1 h.2⟩

section

variable {span : Span} {receiver lhs rhs predicate ifTrue ifFalse : Tree} {args : List Tree}

@[simp] theorem Tree.legible_literal {value : Literal} :
    (literal span value).Legible ↔ value.Legible := by
  rw [legible_iff]
  simp [LegibleHere, parts]

@[simp] theorem Tree.legible_ident {name : String} :
    (ident span name).Legible ↔ LexesAsName name := by
  rw [legible_iff]
  simp [LegibleHere, parts]

@[simp] theorem Tree.legible_field {name : Name} : (field span receiver name).Legible ↔
    (receiver.isUnary = false ∧ LexesAsName name.text) ∧ receiver.Legible := by
  rw [legible_iff]
  simp [LegibleHere, parts]

@[simp] theorem Tree.legible_call {name : Name} : (call span receiver name args).Legible ↔
    (receiver.isUnary = false ∧ LexesAsName name.text) ∧ receiver.Legible ∧
      ∀ arg ∈ args, arg.Legible := by
  rw [legible_iff]
  simp [LegibleHere, parts]

@[simp] theorem Tree.legible_unary {op : UnaryOp} :
    (unary span op rhs).Legible ↔ rhs.Legible := by
  rw [legible_iff]
  simp [LegibleHere, parts]

@[simp] theorem Tree.legible_binary {op : BinaryOp} :
    (binary span op lhs rhs).Legible ↔ lhs.Legible ∧ rhs.Legible := by
  rw [legible_iff]
  simp [LegibleHere, parts]

@[simp] theorem Tree.legible_ternary : (ternary span predicate ifTrue ifFalse).Legible ↔
    predicate.Legible ∧ ifTrue.Legible ∧ ifFalse.Legible := by
  rw [legible_iff]
  simp [LegibleHere, parts]

@[simp] theorem Tree.legible_coalesce :
    (coalesce span lhs rhs).Legible ↔ lhs.Legible ∧ rhs.Legible := by
  rw [legible_iff]
  simp [LegibleHere, parts]

@[simp] theorem Tree.legible_group : (group span rhs).Legible ↔ rhs.Legible := by
  rw [legible_iff]
  simp [LegibleHere, parts]

end

/-! ## Printed tokens -/

def UnaryOp.mark : UnaryOp → Mark
  | .not => .bang
  | .neg => .minus

def InfixOp.mark : InfixOp → Mark
  | .coalesce => .coalesce
  | .binary (.math .add) => .plus
  | .binary (.math .sub) => .minus
  | .binary (.math .mul) => .star
  | .binary (.math .div) => .slash
  | .binary (.math .rem) => .percent
  | .binary (.compare .eq) => .eqEq
  | .binary (.compare .ne) => .notEq
  | .binary (.compare .lt) => .lt
  | .binary (.compare .le) => .ltEq
  | .binary (.compare .gt) => .gt
  | .binary (.compare .ge) => .gtEq
  | .binary (.logical .and) => .andAnd
  | .binary (.logical .or) => .orOr

theorem UnaryOp.text_mark (op : UnaryOp) : op.mark.text = op.symbol := by
  cases op <;> rfl

theorem BinaryOp.text_mark (op : BinaryOp) : (InfixOp.binary op).mark.text = op.symbol := by
  rcases op with ⟨_ | _ | _ | _ | _⟩ | ⟨_ | _ | _ | _ | _ | _⟩ | ⟨_ | _⟩ <;> rfl

theorem InfixOp.isWord_mark (op : InfixOp) : op.mark.isWord = false := by
  rcases op with _ | ⟨_ | _ | _ | _ | _⟩ | ⟨_ | _ | _ | _ | _ | _⟩ | ⟨_ | _⟩ <;> rfl

def inParens (tokens : List Token) : List Token :=
  .mark .openParen :: (tokens ++ [.mark .closeParen])

mutual

/-- The tokens of a printed tree. -/
def Tree.tokens : Tree → List Token
  | .literal _ value => [value.token]
  | .ident _ name => [.name name]
  | .field _ receiver name => receiver.tokens ++ [.mark .dot, .name name.text]
  | .call _ target name args =>
    target.tokens ++ .mark .dot :: .name name.text :: .mark .openParen ::
      ([.mark .comma].intercalate (Tree.tokensAll args) ++ [.mark .closeParen])
  | .unary _ op operand => .mark op.mark :: operand.tokens
  | .binary _ op lhs rhs =>
    inParens (lhs.tokens ++ .mark (InfixOp.binary op).mark :: rhs.tokens)
  | .ternary _ predicate ifTrue ifFalse =>
    inParens (predicate.tokens ++ .mark .question ::
      (ifTrue.tokens ++ .mark .colon :: ifFalse.tokens))
  | .coalesce _ lhs rhs => inParens (lhs.tokens ++ .mark InfixOp.coalesce.mark :: rhs.tokens)
  | .group _ inner => inner.tokens

def Tree.tokensAll : List Tree → List (List Token)
  | [] => []
  | tree :: trees => tree.tokens :: Tree.tokensAll trees

end

/-! ## Spelling -/

section

variable {s t : List Char} {ts us : List Token} {m : Mark} {name : String} {c : Char}
  {rest : List Char} {ends : List Char → Prop}

/-- Anything may follow. -/
def AnyEnd (_ : List Char) : Prop :=
  True

theorem Mark.end_blank (m : Mark) : m.End (' ' :: rest) := by
  intro c hc
  cases hc
  cases m <;> rfl

theorem spells_closed {m : Mark} (hm : m ∈ [Mark.openParen, .closeParen, .comma, .dot]) :
    Spells AnyEnd m.text.toList [.mark m] := by
  have hword : m.isWord = false := by
    revert m
    decide
  refine (Mark.spells hword).mono fun rest _ c _ => ?_
  simp only [List.mem_cons, List.not_mem_nil, or_false] at hm
  rcases hm with rfl | rfl | rfl | rfl <;> rfl

theorem Spells.operand (hs : Spells AnyEnd s ts) (ht : Spells ends t us) :
    Spells ends (s ++ t) (ts ++ us) :=
  hs.append ht fun _ _ => trivial

theorem Spells.blank (h : Spells ReceiverEnd s ts) : Spells AnyEnd (s ++ " ".toList) ts := by
  have hblank := h.append (spells_blank AnyEnd) fun _ _ => Or.inl rfl
  rwa [List.append_nil] at hblank

/-- An operator between blanks. -/
theorem Spells.sign (h : Spells ReceiverEnd s ts) (hm : m.isWord = false) :
    Spells AnyEnd (s ++ " ".toList ++ m.text.toList ++ " ".toList) (ts ++ [.mark m]) := by
  have hblank := (h.blank.operand (Mark.spells hm)).append (spells_blank AnyEnd)
    fun _ _ => m.end_blank
  rwa [List.append_nil] at hblank

theorem Spells.close (h : Spells ReceiverEnd s ts) :
    Spells AnyEnd (s ++ ")".toList) (ts ++ [.mark .closeParen]) :=
  h.append (spells_closed (m := .closeParen) (by decide)) fun _ _ => Or.inr (Or.inl rfl)

theorem Spells.comma (h : Spells ReceiverEnd s ts) :
    Spells AnyEnd (s ++ ", ".toList) (ts ++ [.mark .comma]) := by
  have hcomma := h.append (spells_closed (m := .comma) (by decide))
    fun _ _ => Or.inr (Or.inr rfl)
  have hblank := hcomma.append (spells_blank AnyEnd) fun _ _ => trivial
  rwa [List.append_nil, List.append_assoc] at hblank

theorem Spells.member (h : Spells ReceiverEnd s ts) (hname : IsName name.toList) :
    Spells NameEnd (s ++ ".".toList ++ name.toList) (ts ++ [.mark .dot, .name name]) := by
  have hmember := (spells_closed (m := .dot) (by decide)).operand hname.spells
  obtain ⟨first, letters, heq, hfirst, -⟩ := hname.shape
  rw [List.append_assoc]
  refine h.append hmember fun rest _ => ?_
  rw [heq]
  exact hfirst

theorem Spells.opened (h : Spells NameEnd s ts) :
    Spells AnyEnd (s ++ "(".toList) (ts ++ [.mark .openParen]) :=
  h.append (spells_closed (m := .openParen) (by decide)) fun _ _ => rfl

/-- The arguments of a call, up to the closing parenthesis. -/
theorem Spells.arguments {args : List Tree} (h : Spells AnyEnd s ts)
    (hargs : ∀ arg ∈ args, Spells ReceiverEnd arg.render.toList arg.tokens) :
    Spells AnyEnd (s ++ (", ".intercalate (Tree.renderAll args)).toList ++ ")".toList)
      (ts ++ ([.mark .comma].intercalate (Tree.tokensAll args) ++ [.mark .closeParen])) := by
  induction args generalizing s ts with
  | nil =>
    have hclose := h.operand (spells_closed (m := .closeParen) (by decide))
    simpa [Tree.renderAll, Tree.tokensAll, Mark.text] using hclose
  | cons arg args ih =>
    have harg := h.operand (hargs arg List.mem_cons_self)
    cases args with
    | nil => simpa [Tree.renderAll, Tree.tokensAll] using harg.close
    | cons next args =>
      have hrest := ih harg.comma fun other hother => hargs other (List.mem_cons_of_mem _ hother)
      simpa [Tree.renderAll, Tree.tokensAll, String.intercalate_cons_cons, List.append_assoc]
        using hrest

theorem ne_eq_of_firstPiece {token : Token} (h : (firstPiece (c :: rest)).2 = .ok token)
    (htoken : token ≠ .mark .eqEq) : c ≠ '=' := by
  rintro rfl
  have hmark : ∀ rule ∈ Rule.all, rule.starts '=' = true → rule = .mark .eqEq := by decide
  obtain ⟨rule, hmem, hstarts, word, hword⟩ := exists_rule_of_firstPiece h
  rw [hmark rule hmem hstarts] at hword
  exact htoken (Except.ok.inj hword).symm

/-- No printed tree starts like an equality sign. -/
theorem Tree.exists_cons_render {tree : Tree} (h : tree.Legible) :
    ∃ c rest, tree.render.toList = c :: rest ∧ c ≠ '=' := by
  induction tree using Tree.partsInduction with
  | step tree ih =>
    have hparts : ∀ part ∈ tree.parts, ∃ c rest, part.render.toList = c :: rest ∧ c ≠ '=' :=
      fun part hpart => ih part hpart (h.parts part hpart)
    cases tree with
    | literal span value =>
      have hfirst : firstPiece (value.render.toList ++ []) = _ :=
        Literal.firstPiece_render h.here trivial
      rw [List.append_nil] at hfirst
      show ∃ c rest, value.render.toList = c :: rest ∧ c ≠ '='
      cases hrender : value.render.toList with
      | nil =>
        rw [hrender] at hfirst
        cases hfirst
      | cons c rest =>
        rw [hrender] at hfirst
        refine ⟨c, rest, rfl, ne_eq_of_firstPiece (congrArg Prod.snd hfirst) ?_⟩
        cases value with
        | bool value => cases value <;> decide
        | _ => simp [Literal.token]
    | ident span name =>
      obtain ⟨first, letters, heq, hfirst, -⟩ := (lexesAsName_iff.mp h.here).shape
      refine ⟨first, letters, heq, ?_⟩
      rintro rfl
      cases hfirst
    | field span receiver name =>
      obtain ⟨c, rest, heq, hc⟩ := hparts receiver List.mem_cons_self
      exact ⟨c, _, by simp only [render, String.toList_append, heq, List.cons_append]; rfl, hc⟩
    | call span target name args =>
      obtain ⟨c, rest, heq, hc⟩ := hparts target List.mem_cons_self
      exact ⟨c, _, by simp only [render, String.toList_append, heq, List.cons_append]; rfl, hc⟩
    | unary span op operand =>
      cases op
      · exact ⟨'!', _, by simp only [render, String.toList_append]; rfl, by decide⟩
      · exact ⟨'-', _, by simp only [render, String.toList_append]; rfl, by decide⟩
    | binary | ternary | coalesce =>
      exact ⟨'(', _, by simp only [render, String.toList_append]; rfl, by decide⟩
    | group span inner => exact hparts inner List.mem_cons_self

theorem UnaryOp.spells_mark (op : UnaryOp) (hs : Spells ends s ts)
    (hfirst : ∃ c rest, s = c :: rest ∧ c ≠ '=') :
    Spells ends (op.symbol.toList ++ s) (.mark op.mark :: ts) := by
  have hword : op.mark.isWord = false := by cases op <;> rfl
  rw [← op.text_mark]
  refine (Mark.spells hword).append hs fun rest _ d hd => ?_
  obtain ⟨c, letters, rfl, hc⟩ := hfirst
  cases hd
  cases op with
  | not => simp [UnaryOp.mark, Mark.grows, Mark.all, Mark.text, List.isPrefixOf, hc]
  | neg => rfl

/-- The text of a legible tree spells its tokens. -/
theorem Tree.spells {tree : Tree} (h : tree.Legible) :
    Spells ReceiverEnd tree.render.toList tree.tokens := by
  induction tree using Tree.partsInduction with
  | step tree ih =>
    have hparts : ∀ part ∈ tree.parts, Spells ReceiverEnd part.render.toList part.tokens :=
      fun part hpart => ih part hpart (h.parts part hpart)
    have hopen : Spells AnyEnd "(".toList [.mark .openParen] :=
      spells_closed (m := .openParen) (by decide)
    cases tree with
    | literal span value => exact Literal.spells h.here
    | ident span name =>
      exact (lexesAsName_iff.mp h.here).spells.mono fun _ hrest => hrest.nameEnd
    | field span receiver name =>
      have hmember := (hparts receiver List.mem_cons_self).member (lexesAsName_iff.mp h.here.2)
      simpa only [render, tokens, String.toList_append] using
        hmember.mono fun _ hrest => hrest.nameEnd
    | call span target name args =>
      have hmember := (hparts target List.mem_cons_self).member (lexesAsName_iff.mp h.here.2)
      have hcall := hmember.opened.arguments fun arg harg =>
        hparts arg (List.mem_cons_of_mem _ harg)
      simpa [render, tokens] using hcall.mono fun _ _ => trivial
    | unary span op operand =>
      have hoperand := hparts operand List.mem_cons_self
      have hfirst := exists_cons_render (h.parts operand List.mem_cons_self)
      simpa only [render, tokens, String.toList_append] using op.spells_mark hoperand hfirst
    | binary span op lhs rhs =>
      have hlhs := hopen.operand (hparts lhs (by simp [parts]))
      have hrhs :=
        (hlhs.sign (InfixOp.binary op).isWord_mark).operand (hparts rhs (by simp [parts]))
      simpa [render, tokens, inParens, op.text_mark] using hrhs.close.mono fun _ _ => trivial
    | ternary span predicate ifTrue ifFalse =>
      have hpredicate := hopen.operand (hparts predicate (by simp [parts]))
      have htrue := (hpredicate.sign (m := .question) rfl).operand (hparts ifTrue (by simp [parts]))
      have hfalse := (htrue.sign (m := .colon) rfl).operand (hparts ifFalse (by simp [parts]))
      simpa [render, tokens, inParens, Mark.text] using hfalse.close.mono fun _ _ => trivial
    | coalesce span lhs rhs =>
      have hlhs := hopen.operand (hparts lhs (by simp [parts]))
      have hrhs := (hlhs.sign InfixOp.coalesce.isWord_mark).operand (hparts rhs (by simp [parts]))
      simpa [render, tokens, inParens, InfixOp.mark, Mark.text] using
        hrhs.close.mono fun _ _ => trivial
    | group span inner => exact hparts inner List.mem_cons_self

end

end BindingPlan
