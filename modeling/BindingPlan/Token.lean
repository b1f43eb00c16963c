import BindingPlan.Decimal.Written

/-!
# Tokens

The words of binding expressions: marks (keywords, operators and punctuation, each with one
spelling), literals with their values, and names.
-/

namespace BindingPlan

/-- A token with a fixed spelling: a keyword or an operator of `Token`. -/
inductive Mark where
  | nullWord | trueWord | falseWord
  | coalesce | question | colon | orOr | andAnd | eqEq | notEq | ltEq | gtEq | lt | gt
  | plus | minus | star | slash | percent | bang | dot | comma | openParen | closeParen
deriving DecidableEq, Repr

def Mark.text : Mark → String
  | .nullWord => "null"
  | .trueWord => "true"
  | .falseWord => "false"
  | .coalesce => "??"
  | .question => "?"
  | .colon => ":"
  | .orOr => "||"
  | .andAnd => "&&"
  | .eqEq => "=="
  | .notEq => "!="
  | .ltEq => "<="
  | .gtEq => ">="
  | .lt => "<"
  | .gt => ">"
  | .plus => "+"
  | .minus => "-"
  | .star => "*"
  | .slash => "/"
  | .percent => "%"
  | .bang => "!"
  | .dot => "."
  | .comma => ","
  | .openParen => "("
  | .closeParen => ")"

def Mark.all : List Mark :=
  [.nullWord, .trueWord, .falseWord, .coalesce, .question, .colon, .orOr, .andAnd, .eqEq, .notEq,
    .ltEq, .gtEq, .lt, .gt, .plus, .minus, .star, .slash, .percent, .bang, .dot, .comma,
    .openParen, .closeParen]

theorem Mark.mem_all (mark : Mark) : mark ∈ Mark.all := by
  cases mark <;> simp [all]

/-- A word of the source (`Token`). Literals carry their value, texts and characters after
unescaping. -/
inductive Token where
  | mark (mark : Mark)
  | float (value : Binary64)
  | int (value : Nat)
  | text (value : String)
  | char (value : Char)
  | name (value : String)
deriving DecidableEq, Repr

/-- How a token is named in messages (`fmt` of `Token`): values without their escapes, names without
their letters. -/
def Token.describe : Token → String
  | .mark m => m.text
  | .float value => value.plainText
  | .int value => toString value
  | .text value => "\"" ++ value ++ "\""
  | .char value => "'" ++ value.toString ++ "'"
  | .name _ => "<ident>"

end BindingPlan
