import BindingPlan.Token.Lexer
import BindingPlan.Tree

/-!
# Parsing

The grammar, loosest first: `?:` (to the right), `??`, `||`, `&&`, equality, relations, sums,
products (all to the left), `!` and `-` in front, `.name` and `.name(args)` behind, and then
literals, names and groups.

The parser reads the tokens once, from left to right. Between two tokens it is in a `ParseState`: a
stack of constructs that are open, and what it has of the innermost one. A token either leads to the
next state or is impossible there; so the first impossible token is the place of the error, and the
state in front of it tells what could have stood there.

Main definitions:

* `ParseState.step?`: the state after one more token.
* `parseTokens`: the tree of a token list, or the error at its first impossible token.
* `parse`: lexing and parsing of a source.
-/

namespace BindingPlan

/-! ## Operators between operands -/

/-- What can stand between two operands of equal rank. -/
inductive InfixOp where
  | coalesce
  | binary (op : BinaryOp)
deriving DecidableEq, Repr

/-- How tightly an operator binds, from `??` at zero up to products: the nesting of the levels of
`expr_parser`. -/
def InfixOp.level : InfixOp → Nat
  | .coalesce => 0
  | .binary (.logical .or) => 1
  | .binary (.logical .and) => 2
  | .binary (.compare .eq) | .binary (.compare .ne) => 3
  | .binary (.compare _) => 4
  | .binary (.math .add) | .binary (.math .sub) => 5
  | .binary (.math _) => 6

def Mark.infixOp? : Mark → Option InfixOp
  | .coalesce => some .coalesce
  | .orOr => some (.binary (.logical .or))
  | .andAnd => some (.binary (.logical .and))
  | .eqEq => some (.binary (.compare .eq))
  | .notEq => some (.binary (.compare .ne))
  | .lt => some (.binary (.compare .lt))
  | .ltEq => some (.binary (.compare .le))
  | .gt => some (.binary (.compare .gt))
  | .gtEq => some (.binary (.compare .ge))
  | .plus => some (.binary (.math .add))
  | .minus => some (.binary (.math .sub))
  | .star => some (.binary (.math .mul))
  | .slash => some (.binary (.math .div))
  | .percent => some (.binary (.math .rem))
  | _ => none

def Mark.unaryOp? : Mark → Option UnaryOp
  | .bang => some .not
  | .minus => some .neg
  | _ => none

/-- The literal that a token is (`literal`). -/
def Token.literal? : Token → Option Literal
  | .mark .nullWord => some .null
  | .mark .trueWord => some (.bool true)
  | .mark .falseWord => some (.bool false)
  | .int value => some (.int value)
  | .float value => some (.float value)
  | .text value => some (.text value)
  | .char value => some (.char value)
  | _ => none

/-- The tree of two operands and the operator between them (`fold_binary`). -/
def InfixOp.join (op : InfixOp) (lhs rhs : Tree) : Tree :=
  match op with
  | .coalesce => .coalesce (lhs.span.to rhs.span) lhs rhs
  | .binary op => .binary (lhs.span.to rhs.span) op lhs rhs

/-! ## States -/

/-- An open construct, with what of it is complete. -/
inductive Frame where
  /-- An operator in front of an operand, and where it stands. -/
  | unary (op : UnaryOp) (start : Span)
  /-- An operator behind its left operand. -/
  | operator (op : InfixOp) (lhs : Tree)
  /-- A predicate and `?`. -/
  | ifTrue (predicate : Tree)
  /-- A predicate, `?`, the value if it holds, and `:`. -/
  | ifFalse (predicate ifTrue : Tree)
  /-- An opening parenthesis, and where it stands. -/
  | group (start : Span)
  /-- `target.name(` and the arguments before the last comma. -/
  | arguments (target : Tree) (name : Name) (done : List Tree)
deriving Repr

/-- What has been read, seen from between two tokens. -/
inductive ParseState where
  /-- An operand must start. -/
  | operand (stack : List Frame)
  /-- The parenthesis of a call was opened: an operand must start, or the parenthesis closes. -/
  | firstArgument (target : Tree) (name : Name) (stack : List Frame)
  /-- A point was read: a name must follow. -/
  | member (receiver : Tree) (stack : List Frame)
  /-- A member name was read: it is a field unless a parenthesis opens. -/
  | named (receiver : Tree) (name : Name) (stack : List Frame)
  /-- An operand without further members was read. -/
  | complete (operand : Tree) (stack : List Frame)
deriving Repr

/-- Closes the operators on top of the stack that bind at least as tightly as the level: what the
folds of the levels of `expr_parser` have joined by then. -/
def reduceTo (level : Nat) : List Frame → Tree → Tree × List Frame
  | .unary op start :: stack, operand =>
    reduceTo level stack (.unary (start.to operand.span) op operand)
  | .operator op lhs :: stack, operand =>
    if level ≤ op.level then reduceTo level stack (op.join lhs operand)
    else (operand, .operator op lhs :: stack)
  | stack, operand => (operand, stack)

/-- Closes everything on top of the stack that ends where its last operand ends: what all rules of
`expr_parser` below a group have joined by then. -/
def reduceAll : List Frame → Tree → Tree × List Frame
  | .unary op start :: stack, operand =>
    reduceAll stack (.unary (start.to operand.span) op operand)
  | .operator op lhs :: stack, operand => reduceAll stack (op.join lhs operand)
  | .ifFalse predicate ifTrue :: stack, operand =>
    reduceAll stack (.ternary (predicate.span.to operand.span) predicate ifTrue operand)
  | stack, operand => (operand, stack)

/-- The state after the first token of an operand: the rules `unary` and `atom` of `expr_parser`. -/
def startOperand? (lexeme : Lexeme) (stack : List Frame) : Option ParseState :=
  match lexeme.token.literal? with
  | some value => some (.complete (.literal lexeme.span value) stack)
  | none =>
    match lexeme.token with
    | .name name => some (.complete (.ident lexeme.span name) stack)
    | .mark .openParen => some (.operand (.group lexeme.span :: stack))
    | .mark mark => mark.unaryOp?.map fun op => .operand (.unary op lexeme.span :: stack)
    | _ => none

/-- The state after a token that follows an operand: the rules of `expr_parser` that go on behind
one. -/
def continue? (lexeme : Lexeme) (operand : Tree) (stack : List Frame) : Option ParseState :=
  match lexeme.token with
  | .mark .dot => some (.member operand stack)
  | .mark .question =>
    let (predicate, stack) := reduceTo 0 stack operand
    some (.operand (.ifTrue predicate :: stack))
  | .mark .colon =>
    match reduceAll stack operand with
    | (value, .ifTrue predicate :: stack) => some (.operand (.ifFalse predicate value :: stack))
    | _ => none
  | .mark .comma =>
    match reduceAll stack operand with
    | (arg, .arguments target name done :: stack) =>
      some (.operand (.arguments target name (done ++ [arg]) :: stack))
    | _ => none
  | .mark .closeParen =>
    match reduceAll stack operand with
    | (inner, .group start :: stack) => some (.complete (.group (start.to lexeme.span) inner) stack)
    | (arg, .arguments target name done :: stack) =>
      some (.complete (.call (target.span.to lexeme.span) target name (done ++ [arg])) stack)
    | _ => none
  | .mark mark =>
    mark.infixOp?.map fun op =>
      let (lhs, stack) := reduceTo op.level stack operand
      .operand (.operator op lhs :: stack)
  | _ => none

/-- The tree of a member that is no call (`postfix`). -/
def fieldOf (receiver : Tree) (name : Name) : Tree :=
  .field (receiver.span.to name.span) receiver name

namespace ParseState

/-- Nothing was read. -/
def start : ParseState := .operand []

/-- The state after one more token; `none` if the token is impossible. -/
def step? (lexeme : Lexeme) : ParseState → Option ParseState
  | .operand stack => startOperand? lexeme stack
  | .firstArgument target name stack =>
    if lexeme.token = .mark .closeParen then
      some (.complete (.call (target.span.to lexeme.span) target name []) stack)
    else startOperand? lexeme (.arguments target name [] :: stack)
  | .member receiver stack =>
    match lexeme.token with
    | .name name => some (.named receiver ⟨name, lexeme.span⟩ stack)
    | _ => none
  | .named receiver name stack =>
    if lexeme.token = .mark .openParen then some (.firstArgument receiver name stack)
    else continue? lexeme (fieldOf receiver name) stack
  | .complete last stack => continue? lexeme last stack

/-- The tree if the source may end here. -/
def finish? : ParseState → Option Tree
  | .named receiver name stack =>
    match reduceAll stack (fieldOf receiver name) with
    | (tree, []) => some tree
    | _ => none
  | .complete last stack =>
    match reduceAll stack last with
    | (tree, []) => some tree
    | _ => none
  | _ => none

end ParseState

/-! ## Errors -/

/-- What could stand at a place, as far as messages name it. -/
inductive Expectation where
  | mark (mark : Mark)
  | name
  /-- Any token of a class that is not listed one by one: literals and most operators. -/
  | somethingElse
  | endOfInput
deriving DecidableEq, Repr

def Expectation.describe : Expectation → String
  | .mark m => "'" ++ m.text ++ "'"
  | .name => "'<ident>'"
  | .somethingElse => "something else"
  | .endOfInput => "end of input"

/-- What closes or continues the innermost construct that does not end with its last operand. -/
def closers : List Frame → List Expectation
  | [] => [.endOfInput]
  | .group _ :: _ => [.mark .closeParen]
  | .arguments _ _ _ :: _ => [.mark .comma, .mark .closeParen]
  | .ifTrue _ :: _ => [.mark .colon]
  | _ :: stack => closers stack

/-- What can follow an operand. -/
def continuations (stack : List Frame) : List Expectation :=
  [.mark .dot, .somethingElse, .mark .andAnd, .mark .orOr, .mark .coalesce, .mark .question]
    ++ closers stack

/-- What can start an operand. -/
def operandStarts : List Expectation :=
  [.somethingElse, .name, .mark .openParen]

def ParseState.expected : ParseState → List Expectation
  | .operand _ => operandStarts
  | .firstArgument _ _ _ => operandStarts ++ [.mark .closeParen]
  | .member _ _ => [.name]
  | .named _ _ stack => .mark .openParen :: continuations stack
  | .complete _ stack => continuations stack

/-- The first impossible token, `none` for the end of the source, and what could stand there. -/
structure SyntaxError where
  found : Option Token
  expected : List Expectation
  span : Span
deriving DecidableEq, Repr

/-- A list of alternatives in words. -/
def alternatives : List String → String
  | [] => "something else"
  | [only] => only
  | several => String.join (several.dropLast.map (· ++ ", ")) ++ "or " ++ several.getLastD ""

def SyntaxError.message (error : SyntaxError) : String :=
  let found :=
    match error.found with
    | some token => "'" ++ token.describe ++ "'"
    | none => "end of input"
  "found " ++ found ++ " expected " ++ alternatives (error.expected.map Expectation.describe)

/-! ## Parsing -/

/-- The tree of the tokens after a state, in a source that ends at a byte position. -/
def parseFrom (stop : Nat) (state : ParseState) : List Lexeme → Except SyntaxError Tree
  | [] =>
    match state.finish? with
    | some tree => .ok tree
    | none => .error ⟨none, state.expected, ⟨stop, stop⟩⟩
  | lexeme :: lexemes =>
    match state.step? lexeme with
    | some state => parseFrom stop state lexemes
    | none => .error ⟨some lexeme.token, state.expected, lexeme.span⟩

/-- The tree of a token list, or its error: what `expr_parser` makes of the whole list. -/
def parseTokens (stop : Nat) (lexemes : List Lexeme) : Except SyntaxError Tree :=
  parseFrom stop .start lexemes

/-- The errors of the lexer, and the tree of the tokens that it found (`ParseResult`). -/
structure Parsed where
  lexErrors : List LexError
  result : Except SyntaxError Tree

/-- Reads a binding expression (`parse`). -/
def parse (source : String) : Parsed :=
  let lexed := lex source
  ⟨lexed.errors, parseTokens (byteLength source.toList) lexed.tokens⟩

end BindingPlan
