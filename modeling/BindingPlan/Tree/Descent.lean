import BindingPlan.Tree.Parser

/-!
# Parsing by ordered choice

The grammar put together from parsers of its parts. A parser reads some of the tokens in front of
it, or fails. A choice tries its parsers in order and takes the first that succeeds, and what is
optional or repeated is tried as well; where such an attempt fails, parsing goes on from the place
at which it began. The furthest place at which any attempt has failed is kept, with all that was
tried there. If the whole fails, it is the place of the error.

The parsers have the names of the rules of `expr_parser` that they are, with `access` for `postfix`,
`conjunction` for `and` and `disjunction` for `or`. `parseTokens` comes to the same without ever
going back.

Main definitions:

* `TokenParser`: parsers, with sequence, choice, repetition and recursion.
* `TokenParser.expression`: the grammar, with a parser for each level.
* `descend`: the tree of a token list, or the error at the furthest failure.
-/

namespace BindingPlan

/-! ## Failures -/

/-- A place where no more could be read, as the tokens from there on, and what was tried there. -/
structure ParseFailure where
  rest : List Lexeme
  expected : List Expectation
deriving Repr

/-- The furthest failure after another one (`add_alt`): the one that is further on, or at the same
place what was tried there, each once. -/
def furthest : Option ParseFailure → ParseFailure → ParseFailure
  | none, next => next
  | some failure, next =>
    if next.rest.length < failure.rest.length then next
    else if failure.rest.length < next.rest.length then failure
    else ⟨failure.rest, failure.expected ++ next.expected.filter (· ∉ failure.expected)⟩

/-- The error at a failure, in a source that ends at a byte position. -/
def ParseFailure.toError (stop : Nat) (failure : ParseFailure) : SyntaxError :=
  match failure.rest with
  | [] => ⟨none, failure.expected, ⟨stop, stop⟩⟩
  | lexeme :: _ => ⟨some lexeme.token, failure.expected, lexeme.span⟩

/-! ## Parsers -/

/-- What a parser makes of some tokens: the furthest failure up to its end, which there can be even
if it succeeds, and the value that it read, with the tokens behind. -/
structure Attempt (α : Type) where
  failure : Option ParseFailure
  result : Option (α × List Lexeme)
deriving Repr

/-- A parser takes the furthest failure up to its start, and the tokens in front of it. -/
abbrev TokenParser (α : Type) : Type :=
  Option ParseFailure → List Lexeme → Attempt α

namespace TokenParser

variable {α β : Type}

instance : Monad TokenParser where
  pure value := fun failure lexemes => ⟨failure, some (value, lexemes)⟩
  bind parser next := fun failure lexemes =>
    match parser failure lexemes with
    | ⟨failure, none⟩ => ⟨failure, none⟩
    | ⟨failure, some (value, rest)⟩ => next value failure rest

/-- Fails in front of the tokens. -/
def fail (expectation : Expectation) : TokenParser α := fun failure lexemes =>
  ⟨some (furthest failure ⟨lexemes, [expectation]⟩), none⟩

/-- One token, if it has a value (`select`). -/
def select (expectation : Expectation) (value? : Lexeme → Option α) : TokenParser α
  | failure, [] => fail expectation failure []
  | failure, lexeme :: rest =>
    match value? lexeme with
    | some value => ⟨failure, some (value, rest)⟩
    | none => fail expectation failure (lexeme :: rest)

/-- The mark (`just`). -/
def just (mark : Mark) : TokenParser Lexeme :=
  select (.mark mark) fun lexeme => if lexeme.token = .mark mark then some lexeme else none

/-- The end of the tokens (`end`). -/
def endOfInput : TokenParser Unit
  | failure, [] => ⟨failure, some ((), [])⟩
  | failure, lexemes => fail .endOfInput failure lexemes

/-- The first parser, or if it fails the second one from the same place (`or`). -/
def either (first second : TokenParser α) : TokenParser α := fun failure lexemes =>
  match first failure lexemes with
  | ⟨failure, none⟩ => second failure lexemes
  | success => success

/-- The parser, or nothing (`or_not`). -/
def optional (parser : TokenParser α) : TokenParser (Option α) :=
  either (do return some (← parser)) (return none)

/-- One parser and then another (`then`). -/
def both (first : TokenParser α) (second : TokenParser β) : TokenParser (α × β) := do
  let value ← first
  let other ← second
  return (value, other)

/-- The parser as often as it succeeds (`repeated`). It reads at least one token each time. -/
def many (parser : TokenParser α) (failure : Option ParseFailure) (lexemes : List Lexeme) :
    Attempt (List α) :=
  match parser failure lexemes with
  | ⟨failure, none⟩ => ⟨failure, some ([], lexemes)⟩
  | ⟨failure, some (value, rest)⟩ =>
    if rest.length < lexemes.length then
      let more := many parser failure rest
      ⟨more.failure, more.result.map fun (values, rest) => (value :: values, rest)⟩
    else ⟨failure, some ([], lexemes)⟩
termination_by lexemes.length

/-- Values with separators between them, possibly none (`separated_by`). -/
def separatedBy (separator : TokenParser β) (parser : TokenParser α) : TokenParser (List α) :=
  either
    (do
      let value ← parser
      let values ← many (do
        let _ ← separator
        parser)
      return value :: values)
    (return [])

/-- Values behind a first one, folded into it from the left (`foldl`). -/
def foldMany (combine : β → α → β) (parser : TokenParser α) (value : β) : TokenParser β := do
  let values ← many parser
  return values.foldl combine value

/-- A parser that refers to itself, behind one token at least (`recursive`). -/
def recursive (rule : TokenParser α → TokenParser α) (failure : Option ParseFailure)
    (lexemes : List Lexeme) : Attempt α :=
  rule (fun failure shorter =>
    if shorter.length < lexemes.length then recursive rule failure shorter else ⟨failure, none⟩)
    failure lexemes
termination_by lexemes.length

/-! ## The grammar -/

def name : TokenParser Name :=
  select .name fun lexeme =>
    match lexeme.token with
    | .name text => some ⟨text, lexeme.span⟩
    | _ => none

def literal : TokenParser Tree :=
  select .somethingElse fun lexeme => lexeme.token.literal?.map (.literal lexeme.span)

def nameRef : TokenParser Tree := do
  let name ← name
  return .ident name.span name.text

section

variable (expression : TokenParser Tree)

def group : TokenParser Tree := do
  let opening ← just .openParen
  let inner ← expression
  let closing ← just .closeParen
  return .group (opening.span.to closing.span) inner

def atom : TokenParser Tree :=
  either (either literal nameRef) (group expression)

/-- The arguments of a call, and where its parenthesis closes. -/
def args : TokenParser (List Tree × Span) := do
  let _ ← just .openParen
  let args ← separatedBy (just .comma) expression
  let closing ← just .closeParen
  return (args, closing.span)

def member : TokenParser (Name × Option (List Tree × Span)) := do
  let _ ← just .dot
  let name ← name
  let args ← optional (args expression)
  return (name, args)

/-- The tree of a member or a call of a receiver. -/
def accessOf (receiver : Tree) : Name × Option (List Tree × Span) → Tree
  | (name, none) => fieldOf receiver name
  | (name, some (args, closing)) => .call (receiver.span.to closing) receiver name args

/-- An atom and its members (`postfix`). -/
def access : TokenParser Tree :=
  atom expression >>= foldMany accessOf (member expression)

def unaryOp : TokenParser (UnaryOp × Span) :=
  select .somethingElse fun lexeme =>
    match lexeme.token with
    | .mark .bang => some (.not, lexeme.span)
    | .mark .minus => some (.neg, lexeme.span)
    | _ => none

/-- The tree of signs and the operand behind them. -/
def signed (ops : List (UnaryOp × Span)) (operand : Tree) : Tree :=
  ops.foldr (fun (op, start) operand => .unary (start.to operand.span) op operand) operand

def unary : TokenParser Tree := do
  let ops ← many unaryOp
  let operand ← access expression
  return signed ops operand

end

/-- Operands with the operators of a level between them, folded from the left. -/
def infixLevel (op : TokenParser InfixOp) (operand : TokenParser Tree) : TokenParser Tree :=
  operand >>= foldMany (fun lhs (op, rhs) => op.join lhs rhs) (both op operand)

def productOp : TokenParser InfixOp :=
  select .somethingElse fun lexeme =>
    match lexeme.token with
    | .mark .star => some (.binary (.math .mul))
    | .mark .slash => some (.binary (.math .div))
    | .mark .percent => some (.binary (.math .rem))
    | _ => none

def sumOp : TokenParser InfixOp :=
  select .somethingElse fun lexeme =>
    match lexeme.token with
    | .mark .plus => some (.binary (.math .add))
    | .mark .minus => some (.binary (.math .sub))
    | _ => none

def relationalOp : TokenParser InfixOp :=
  select .somethingElse fun lexeme =>
    match lexeme.token with
    | .mark .lt => some (.binary (.compare .lt))
    | .mark .ltEq => some (.binary (.compare .le))
    | .mark .gt => some (.binary (.compare .gt))
    | .mark .gtEq => some (.binary (.compare .ge))
    | _ => none

def equalityOp : TokenParser InfixOp :=
  select .somethingElse fun lexeme =>
    match lexeme.token with
    | .mark .eqEq => some (.binary (.compare .eq))
    | .mark .notEq => some (.binary (.compare .ne))
    | _ => none

/-- The operator with the mark. -/
def justOp (mark : Mark) (op : InfixOp) : TokenParser InfixOp := do
  let _ ← just mark
  return op

section

variable (expression : TokenParser Tree)

def product : TokenParser Tree :=
  infixLevel productOp (unary expression)

def sum : TokenParser Tree :=
  infixLevel sumOp (product expression)

def relational : TokenParser Tree :=
  infixLevel relationalOp (sum expression)

def equality : TokenParser Tree :=
  infixLevel equalityOp (relational expression)

def conjunction : TokenParser Tree :=
  infixLevel (justOp .andAnd (.binary (.logical .and))) (equality expression)

def disjunction : TokenParser Tree :=
  infixLevel (justOp .orOr (.binary (.logical .or))) (conjunction expression)

def coalesce : TokenParser Tree :=
  infixLevel (justOp .coalesce .coalesce) (disjunction expression)

/-- What stands behind a predicate. -/
def branches : TokenParser (Tree × Tree) := do
  let _ ← just .question
  let ifTrue ← expression
  let _ ← just .colon
  let ifFalse ← expression
  return (ifTrue, ifFalse)

/-- The tree of a predicate and what stands behind it. -/
def choiceOf (predicate : Tree) : Option (Tree × Tree) → Tree
  | none => predicate
  | some (ifTrue, ifFalse) =>
    .ternary (predicate.span.to ifFalse.span) predicate ifTrue ifFalse

def ternary : TokenParser Tree := do
  let predicate ← coalesce expression
  let branches ← optional (branches expression)
  return choiceOf predicate branches

end

/-- A binding expression (`expr_parser`). -/
def expression : TokenParser Tree :=
  recursive ternary

/-- A binding expression and nothing behind it (the parser of `parse`). -/
def wholeExpression : TokenParser Tree := do
  let tree ← expression
  endOfInput
  return tree

end TokenParser

/-- The tree of a token list by ordered choice, in a source that ends at a byte position; or the
error at the furthest failure. -/
def descend (stop : Nat) (lexemes : List Lexeme) : Except SyntaxError Tree :=
  match TokenParser.wholeExpression none lexemes with
  | ⟨_, some (tree, _)⟩ => .ok tree
  | ⟨some failure, none⟩ => .error (failure.toError stop)
  | ⟨none, none⟩ => .error ⟨none, [], ⟨stop, stop⟩⟩

end BindingPlan
