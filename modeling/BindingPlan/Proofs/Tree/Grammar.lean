import BindingPlan.Tree.Parser

/-!
# The grammar of binding expressions

The grammar as rules over tokens, with tables of its own: apart from the tokens and the trees it
takes nothing from the parser. The levels, loosest first:

* 0: the choice `? :`, which goes on to the right;
* 1: `??`; 2: `||`; 3: `&&`; 4: `==` and `!=`; 5: `<`, `<=`, `>` and `>=`; 6: `+` and `-`;
  7: `*`, `/` and `%`, all of which go on to the left;
* 8: `!` and `-` in front of an operand;
* 9: `.name` and `.name(args)`;
* 10: literals, names and groups.

A tree has a construct with its span for each rule that was used, so the tree of some tokens tells
how they are derived.

Main definitions:

* `InfixSign`, `PrefixSign`, `LiteralToken`: the tables of signs and literals.
* `Derives`: the rules.

Main results:

* `infixSign_iff`, `prefixSign_iff`, `literalToken_iff`: the tables of the parser are those of the
  grammar.
-/

namespace BindingPlan

/-! ## Signs and literals -/

/-- The mark stands for the operator between two operands, at the level. -/
inductive InfixSign : Nat → Mark → BinaryOp → Prop
  | or : InfixSign 2 .orOr (.logical .or)
  | and : InfixSign 3 .andAnd (.logical .and)
  | eq : InfixSign 4 .eqEq (.compare .eq)
  | ne : InfixSign 4 .notEq (.compare .ne)
  | lt : InfixSign 5 .lt (.compare .lt)
  | le : InfixSign 5 .ltEq (.compare .le)
  | gt : InfixSign 5 .gt (.compare .gt)
  | ge : InfixSign 5 .gtEq (.compare .ge)
  | add : InfixSign 6 .plus (.math .add)
  | sub : InfixSign 6 .minus (.math .sub)
  | mul : InfixSign 7 .star (.math .mul)
  | div : InfixSign 7 .slash (.math .div)
  | rem : InfixSign 7 .percent (.math .rem)

/-- The mark stands for the operator in front of an operand. -/
inductive PrefixSign : Mark → UnaryOp → Prop
  | not : PrefixSign .bang .not
  | neg : PrefixSign .minus .neg

/-- The token is a literal with the value. -/
inductive LiteralToken : Token → Literal → Prop
  | null : LiteralToken (.mark .nullWord) .null
  | trueWord : LiteralToken (.mark .trueWord) (.bool true)
  | falseWord : LiteralToken (.mark .falseWord) (.bool false)
  | int (value : Nat) : LiteralToken (.int value) (.int value)
  | float (value : Binary64) : LiteralToken (.float value) (.float value)
  | text (value : String) : LiteralToken (.text value) (.text value)
  | char (value : Char) : LiteralToken (.char value) (.char value)

/-! ## Rules -/

mutual

/-- The tokens are a construct of the level, with the given tree. -/
inductive Derives : Nat → List Lexeme → Tree → Prop
  | ternary {p t f : List Lexeme} {question colon : Lexeme} {predicate ifTrue ifFalse : Tree} :
    Derives 1 p predicate → question.token = .mark .question → Derives 0 t ifTrue →
      colon.token = .mark .colon → Derives 0 f ifFalse →
      Derives 0 (p ++ question :: (t ++ colon :: f))
        (.ternary (predicate.span.to ifFalse.span) predicate ifTrue ifFalse)
  | coalesce {l r : List Lexeme} {sign : Lexeme} {lhs rhs : Tree} :
    Derives 1 l lhs → sign.token = .mark .coalesce → Derives 2 r rhs →
      Derives 1 (l ++ sign :: r) (.coalesce (lhs.span.to rhs.span) lhs rhs)
  | binary {level : Nat} {l r : List Lexeme} {sign : Lexeme} {mark : Mark} {op : BinaryOp}
      {lhs rhs : Tree} :
    InfixSign level mark op → Derives level l lhs → sign.token = .mark mark →
      Derives (level + 1) r rhs →
      Derives level (l ++ sign :: r) (.binary (lhs.span.to rhs.span) op lhs rhs)
  | unary {l : List Lexeme} {sign : Lexeme} {mark : Mark} {op : UnaryOp} {operand : Tree} :
    PrefixSign mark op → sign.token = .mark mark → Derives 8 l operand →
      Derives 8 (sign :: l) (.unary (sign.span.to operand.span) op operand)
  | field {l : List Lexeme} {dot name : Lexeme} {text : String} {receiver : Tree} :
    Derives 9 l receiver → dot.token = .mark .dot → name.token = .name text →
      Derives 9 (l ++ [dot, name])
        (.field (receiver.span.to name.span) receiver ⟨text, name.span⟩)
  | call {l a : List Lexeme} {dot name opening closing : Lexeme} {text : String} {target : Tree}
      {args : List Tree} :
    Derives 9 l target → dot.token = .mark .dot → name.token = .name text →
      opening.token = .mark .openParen → DerivesArgs a args → closing.token = .mark .closeParen →
      Derives 9 (l ++ dot :: name :: opening :: (a ++ [closing]))
        (.call (target.span.to closing.span) target ⟨text, name.span⟩ args)
  | emptyCall {l : List Lexeme} {dot name opening closing : Lexeme} {text : String}
      {target : Tree} :
    Derives 9 l target → dot.token = .mark .dot → name.token = .name text →
      opening.token = .mark .openParen → closing.token = .mark .closeParen →
      Derives 9 (l ++ [dot, name, opening, closing])
        (.call (target.span.to closing.span) target ⟨text, name.span⟩ [])
  | literal {lexeme : Lexeme} {value : Literal} :
    LiteralToken lexeme.token value → Derives 10 [lexeme] (.literal lexeme.span value)
  | ident {lexeme : Lexeme} {text : String} :
    lexeme.token = .name text → Derives 10 [lexeme] (.ident lexeme.span text)
  | group {l : List Lexeme} {opening closing : Lexeme} {inner : Tree} :
    opening.token = .mark .openParen → Derives 0 l inner → closing.token = .mark .closeParen →
      Derives 10 (opening :: (l ++ [closing])) (.group (opening.span.to closing.span) inner)
  /-- A construct is one of the next looser level. -/
  | loosen {level : Nat} {l : List Lexeme} {tree : Tree} :
    Derives (level + 1) l tree → Derives level l tree

/-- The tokens are expressions with commas between them, at least one. -/
inductive DerivesArgs : List Lexeme → List Tree → Prop
  | first {l : List Lexeme} {arg : Tree} : Derives 0 l arg → DerivesArgs l [arg]
  | next {a l : List Lexeme} {comma : Lexeme} {args : List Tree} {arg : Tree} :
    DerivesArgs a args → comma.token = .mark .comma → Derives 0 l arg →
      DerivesArgs (a ++ comma :: l) (args ++ [arg])

end

theorem Derives.loosenTo {level looser : Nat} {l : List Lexeme} {tree : Tree}
    (h : Derives level l tree) (hle : looser ≤ level) : Derives looser l tree := by
  obtain ⟨n, rfl⟩ := Nat.exists_eq_add_of_le hle
  induction n with
  | zero => exact h
  | succ n ih => exact ih h.loosen (Nat.le_add_right _ _)

theorem DerivesArgs.ne_nil {a : List Lexeme} {args : List Tree} (h : DerivesArgs a args) :
    args ≠ [] := by
  cases h with
  | first => exact List.cons_ne_nil _ _
  | next => exact List.append_ne_nil_of_right_ne_nil _ (List.cons_ne_nil _ _)

/-! ## The tables of the parser -/

def Token.infixOp? : Token → Option InfixOp
  | .mark m => m.infixOp?
  | _ => none

def Token.unaryOp? : Token → Option UnaryOp
  | .mark m => m.unaryOp?
  | _ => none

theorem infixSign_iff {level : Nat} {mark : Mark} {op : BinaryOp} : InfixSign level mark op ↔
    mark.infixOp? = some (.binary op) ∧ (InfixOp.binary op).level + 1 = level := by
  constructor
  · rintro ⟨⟩ <;> exact ⟨rfl, rfl⟩
  · rintro ⟨hop, rfl⟩
    cases mark <;> cases hop <;> constructor

theorem infixOp?_eq_coalesce_iff {mark : Mark} :
    mark.infixOp? = some .coalesce ↔ mark = .coalesce := by
  cases mark <;> simp [Mark.infixOp?]

theorem prefixSign_iff {mark : Mark} {op : UnaryOp} :
    PrefixSign mark op ↔ mark.unaryOp? = some op := by
  constructor
  · rintro ⟨⟩ <;> rfl
  · intro hop
    cases mark <;> cases hop <;> constructor

theorem literalToken_iff {token : Token} {value : Literal} :
    LiteralToken token value ↔ token.literal? = some value := by
  constructor
  · rintro ⟨⟩ <;> rfl
  · intro hvalue
    unfold Token.literal? at hvalue
    split at hvalue <;> cases hvalue <;> constructor

theorem Token.infixOp?_eq_some_iff {token : Token} {op : InfixOp} :
    token.infixOp? = some op ↔ ∃ mark, token = .mark mark ∧ mark.infixOp? = some op := by
  cases token <;> simp [Token.infixOp?]

theorem Token.unaryOp?_eq_some_iff {token : Token} {op : UnaryOp} :
    token.unaryOp? = some op ↔ ∃ mark, token = .mark mark ∧ PrefixSign mark op := by
  cases token <;> simp [Token.unaryOp?, prefixSign_iff]

theorem InfixOp.level_le (op : InfixOp) : op.level ≤ 6 := by
  unfold InfixOp.level
  split <;> decide

/-- The two rules for operators between operands, by the tables of the parser. -/
theorem Derives.operator {l r : List Lexeme} {sign : Lexeme} {op : InfixOp} {lhs rhs : Tree}
    (hlhs : Derives (op.level + 1) l lhs) (hsign : sign.token.infixOp? = some op)
    (hrhs : Derives (op.level + 2) r rhs) :
    Derives (op.level + 1) (l ++ sign :: r) (op.join lhs rhs) := by
  obtain ⟨mark, htoken, hop⟩ := Token.infixOp?_eq_some_iff.mp hsign
  cases op with
  | coalesce =>
    obtain rfl := infixOp?_eq_coalesce_iff.mp hop
    exact .coalesce hlhs htoken hrhs
  | binary op => exact .binary (infixSign_iff.mpr ⟨hop, rfl⟩) hlhs htoken hrhs

end BindingPlan
