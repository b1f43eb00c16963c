import BindingPlan.Text.Quoted
import BindingPlan.Text.Span
import BindingPlan.Token.Rule

/-!
# Cutting a source into tokens

Between blanks, the source is cut into pieces from left to right. A piece is the longest beginning
of the rest that some rule accepts, and of two rules that accept it the first one gives the token.
Where no rule accepts anything, a quote mark takes the run of units behind it along as one faulty
piece, and any other character is a faulty piece by itself.

Main definitions:

* `pieces`: the pieces of a source in order, each with its span and its token or fault.
* `lex`: the tokens and the errors of a source.
-/

namespace BindingPlan

/-- The blanks between tokens. -/
def isBlank (c : Char) : Bool :=
  c == ' ' || c == '\t' || c == '\r' || c == '\n'

/-- A piece of source between blanks. -/
structure Piece where
  span : Span
  text : List Char
  content : Except LexFault Token
deriving Repr

/-- The rule with the longest accepted beginning, the first of several, and the length of that. -/
def longestRule? (rules : List Rule) (text : List Char) : Option (Rule × Nat) :=
  match rules with
  | [] => none
  | rule :: rules =>
    match rule.longest? text, longestRule? rules text with
    | none, best => best
    | some length, none => some (rule, length)
    | some length, some (other, longer) =>
      if length < longer then some (other, longer) else some (rule, length)

/-- Length of the piece at the start of a text that no rule accepts. -/
def faultLength : List Char → Nat
  | [] => 0
  | c :: rest => if c = '"' ∨ c = '\x60' then 1 + countUnits c rest else 1

/-- Length and content of the piece at the start of a text. -/
def firstPiece (text : List Char) : Nat × Except LexFault Token :=
  match longestRule? Rule.all text with
  | some (rule, length) => (length, rule.token (text.take length))
  | none => (faultLength text, .error .unexpectedCharacter)

/-- The pieces of a text that starts at a byte position. Every piece has at least one character. -/
def pieces (position : Nat) : List Char → List Piece
  | [] => []
  | c :: rest =>
    if isBlank c then pieces (position + c.utf8Size) rest
    else
      let (length, content) := firstPiece (c :: rest)
      let text := c :: rest.take (length - 1)
      let stop := position + byteLength text
      ⟨⟨position, stop⟩, text, content⟩ :: pieces stop (rest.drop (length - 1))
termination_by text => text.length
decreasing_by all_goals simp only [List.length_drop, List.length_cons]; omega

/-- A token and where it stands. -/
structure Lexeme where
  token : Token
  span : Span
deriving DecidableEq, Repr

/-- A piece of source that is no token (`LexError`). -/
structure LexError where
  fault : LexFault
  span : Span
  text : String
deriving DecidableEq, Repr

def LexError.message (error : LexError) : String :=
  match error.fault with
  | .unexpectedCharacter => "unexpected character: " ++ quoteText error.text
  | .integerOutOfRange => "integer literal out of range: " ++ error.text

/-- Tokens and errors, each in source order (`LexResult`). -/
structure Lexed where
  tokens : List Lexeme
  errors : List LexError

def Piece.lexeme? (piece : Piece) : Option Lexeme :=
  match piece.content with
  | .ok token => some ⟨token, piece.span⟩
  | .error _ => none

def Piece.error? (piece : Piece) : Option LexError :=
  match piece.content with
  | .ok _ => none
  | .error fault => some ⟨fault, piece.span, String.ofList piece.text⟩

/-- The tokens and the errors of a source (`lex`). -/
def lex (source : String) : Lexed :=
  let pieces := pieces 0 source.toList
  ⟨pieces.filterMap Piece.lexeme?, pieces.filterMap Piece.error?⟩

end BindingPlan
