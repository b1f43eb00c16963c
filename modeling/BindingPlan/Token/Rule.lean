import BindingPlan.Token

/-!
# Token rules

Each rule accepts some texts as tokens. `Rule.longest?` gives the longest beginning of a text that
a rule accepts, and `Rule.token` the token that an accepted text stands for.

A literal can be accepted and still have no value: a text with an unknown escape, and an integer
above `2 ^ 63 - 1`.
-/

namespace BindingPlan

/-- A kind of token, as a set of accepted texts: the patterns of `Token`. -/
inductive Rule where
  /-- Exactly the spelling of the mark. -/
  | mark (mark : Mark)
  /-- Digits, a point, digits, optionally an exponent, optionally one of `fFdD`. -/
  | float
  /-- Digits, optionally one of `lL`. -/
  | int
  /-- Units between two quote marks. -/
  | text (quote : Char)
  /-- One unit between two single quotes. -/
  | char
  /-- A letter, `_` or `$`, then those and digits. -/
  | name
deriving DecidableEq, Repr

/-- All rules; a mark goes before a name, so that a keyword is not a name. -/
def Rule.all : List Rule :=
  Mark.all.map .mark ++ [.float, .int, .text '"', .text '\x60', .char, .name]

/-- Why a piece of source is no token (`LexErrorKind`). -/
inductive LexFault where
  | unexpectedCharacter
  | integerOutOfRange
deriving DecidableEq, Repr

/-! ## Accepted texts -/

/-- Number of digits at the start. -/
def countDigits (text : List Char) : Nat :=
  (text.takeWhile Char.isDigit).length

def isNameStart (c : Char) : Bool :=
  c.isAlpha || c == '_' || c == '$'

def isNameRest (c : Char) : Bool :=
  c.isAlphanum || c == '_' || c == '$'

/-- One if the text starts with one of the letters, zero if not. -/
def countSuffix (letters : List Char) : List Char → Nat
  | c :: _ => if c ∈ letters then 1 else 0
  | [] => 0

/-- Length of the exponent at the start, zero if there is no complete one. -/
def countExponent : List Char → Nat
  | mark :: rest =>
    if mark = 'e' ∨ mark = 'E' then
      let sign := countSuffix ['+', '-'] rest
      let digits := countDigits (rest.drop sign)
      if digits = 0 then 0 else 1 + sign + digits
    else 0
  | [] => 0

/-- Length of the longest run of units: a unit is a character other than the quote mark and the
backslash, or a backslash and any character but a line feed. -/
def countUnits (quote : Char) : List Char → Nat
  | [] => 0
  | [c] => if c = quote ∨ c = '\\' then 0 else 1
  | c :: d :: rest =>
    if c = '\\' then
      if d = '\n' then 0 else countUnits quote rest + 2
    else if c = quote then 0
    else countUnits quote (d :: rest) + 1

def floatLength? (text : List Char) : Option Nat :=
  let whole := countDigits text
  match text.drop whole with
  | '.' :: rest =>
    let fraction := countDigits rest
    if whole = 0 ∨ fraction = 0 then none
    else
      let exponent := countExponent (rest.drop fraction)
      let suffix := countSuffix ['f', 'F', 'd', 'D'] (rest.drop (fraction + exponent))
      some (whole + 1 + fraction + exponent + suffix)
  | _ => none

def intLength? (text : List Char) : Option Nat :=
  let digits := countDigits text
  if digits = 0 then none
  else some (digits + countSuffix ['l', 'L'] (text.drop digits))

def textLength? (quote : Char) : List Char → Option Nat
  | [] => none
  | c :: rest =>
    let units := countUnits quote rest
    if c = quote ∧ rest[units]? = some quote then some (units + 2) else none

def charLength? : List Char → Option Nat
  | '\'' :: '\\' :: c :: '\'' :: _ => if c = '\n' then none else some 4
  | '\'' :: c :: '\'' :: _ => if c = '\'' ∨ c = '\\' then none else some 3
  | _ => none

def nameLength? : List Char → Option Nat
  | [] => none
  | c :: rest => if isNameStart c then some (1 + (rest.takeWhile isNameRest).length) else none

/-- Length of the longest beginning of the text that the rule accepts. -/
def Rule.longest? (text : List Char) : Rule → Option Nat
  | .mark m => if m.text.toList.isPrefixOf text then some m.text.toList.length else none
  | .float => floatLength? text
  | .int => intLength? text
  | .text quote => textLength? quote text
  | .char => charLength? text
  | .name => nameLength? text

/-! ## Values -/

/-- The characters that a literal stands for (`unescape`); `none` if it has an unknown escape. -/
def unescape : List Char → Option (List Char)
  | [] => some []
  | [c] => if c = '\\' then none else some [c]
  | c :: d :: rest =>
    if c = '\\' then
      match d with
      | 'n' => (unescape rest).map ('\n' :: ·)
      | 't' => (unescape rest).map ('\t' :: ·)
      | d =>
        if d ∈ ['"', '\'', '\x60', '\\'] then (unescape rest).map (d :: ·) else none
    else (unescape (d :: rest)).map (c :: ·)

/-- The value of a run of digits. -/
def digitsValue (digits : List Char) : Nat :=
  digits.foldl (fun value digit => 10 * value + (digit.toNat - '0'.toNat)) 0

/-- The largest value of an integer literal. -/
def maxInt : Nat := 0x7fffffffffffffff

/-- The exponent at the start of the text, zero if there is none. -/
def exponentValue (text : List Char) : Int :=
  if countExponent text = 0 then 0
  else
    match text.drop 1 with
    | '-' :: rest => -(digitsValue (rest.takeWhile Char.isDigit) : Int)
    | '+' :: rest => digitsValue (rest.takeWhile Char.isDigit)
    | rest => digitsValue (rest.takeWhile Char.isDigit)

/-- The number nearest to a float literal (`parse_float`). -/
def floatValue (text : List Char) : Binary64 :=
  let whole := text.takeWhile Char.isDigit
  let rest := text.drop (whole.length + 1)
  let fraction := rest.takeWhile Char.isDigit
  let exponent := exponentValue (rest.drop fraction.length)
  Decimal.toBinary64 ⟨digitsValue (whole ++ fraction), exponent - fraction.length⟩

/-- The text without its first and last character. -/
def withoutQuotes (text : List Char) : List Char :=
  (text.drop 1).dropLast

/-- The token that a text accepted by the rule stands for: the call-backs `parse_float`,
`parse_int`, `parse_string` and `parse_char`. -/
def Rule.token (text : List Char) : Rule → Except LexFault Token
  | .mark m => .ok (.mark m)
  | .float => .ok (.float (floatValue text))
  | .int =>
    let value := digitsValue (text.takeWhile Char.isDigit)
    if value ≤ maxInt then .ok (.int value) else .error .integerOutOfRange
  | .text _ =>
    match unescape (withoutQuotes text) with
    | some value => .ok (.text (String.ofList value))
    | none => .error .unexpectedCharacter
  | .char =>
    match unescape (withoutQuotes text) with
    | some [value] => .ok (.char value)
    | _ => .error .unexpectedCharacter
  | .name => .ok (.name (String.ofList text))

end BindingPlan
