import BindingPlan.Json.Error
import BindingPlan.Text.Span

/-!
# Words, numbers and texts of a document

Each function takes the text from the start of a value on and gives the value with the text behind
it. A value that nobody uses is only skipped: then a number may be beyond the range and a surrogate
escape may be alone, and a number without its digits is malformed even at the end of the text.
-/

namespace BindingPlan
namespace Json

def isBlank (c : Char) : Bool :=
  c == ' ' || c == '\n' || c == '\t' || c == '\r'

/-- The text behind a word that must stand at the start. -/
def dropWord : (word text : List Char) → Except JsonError (List Char)
  | [], text => .ok text
  | _ :: _, [] => .error .truncated
  | w :: word, c :: text => if c = w then dropWord word text else .error .malformed

/-! ## Numbers -/

/-- The parts of a number: its digits before and after the point, and its exponent. -/
structure NumberParts where
  whole : List Char
  fraction : List Char
  exponent : Option Int

def digitValue (c : Char) : Nat :=
  c.toNat - '0'.toNat

/-- Splits off the digits at the start; there must be one. -/
def takeDigits (text : List Char) : Except JsonError (List Char × List Char) :=
  match text.span Char.isDigit with
  | ([], []) => .error .truncated
  | ([], _) => .error .malformed
  | (digits, rest) => .ok (digits, rest)

/-- The exponent at the start of a text, if there is one. -/
def takeExponent : List Char → Except JsonError (Option Int × List Char)
  | mark :: rest =>
    if mark = 'e' ∨ mark = 'E' then do
      let (negative, rest) :=
        match rest with
        | '-' :: rest => (true, rest)
        | '+' :: rest => (false, rest)
        | rest => (false, rest)
      let (digits, rest) ← takeDigits rest
      let value : Int := (digits.foldl (fun value c => 10 * value + digitValue c) 0 : Nat)
      return (some (if negative then -value else value), rest)
    else .ok (none, mark :: rest)
  | [] => .ok (none, [])

/-- The number at the start of a text, behind its sign. -/
def takeNumber (text : List Char) : Except JsonError (NumberParts × List Char) := do
  let (whole, rest) ← takeDigits text
  match whole with
  | '0' :: _ :: _ => throw .malformed
  | _ =>
    let (fraction, rest) ←
      match rest with
      | '.' :: rest => takeDigits rest
      | rest => pure ([], rest)
    let (exponent, rest) ← takeExponent rest
    return (⟨whole, fraction, exponent⟩, rest)

/-- Appends digits to a significand of 64 bits up to the first one that does not fit; gives the
digits that are left. -/
def appendDigits (significand : Nat) : List Char → Nat × List Char
  | [] => (significand, [])
  | c :: digits =>
    let longer := 10 * significand + digitValue c
    if longer < 0x10000000000000000 then appendDigits longer digits else (significand, c :: digits)

def powerOfTen (n : Nat) : Binary64 :=
  .ofRatio (Nat.pow 10 n) 1

/-- The number `significand * 10 ^ exponent` in at most three rounded steps: the significand itself,
then one division by the largest power of ten while the exponent is below that, and one product or
quotient with the power that is left. `none` if it is beyond the finite numbers. -/
def scaleByTen (significand : Nat) (exponent : Int) : Option Binary64 :=
  let start := Binary64.ofRatio significand 1
  if significand = 0 then some .zero
  else if 308 < exponent then none
  else if 0 ≤ exponent then
    let product := start.mul (powerOfTen exponent.toNat)
    if product.isFinite then some product else none
  else if -308 ≤ exponent then some (start.div (powerOfTen (-exponent).toNat))
  else if -616 ≤ exponent then
    some ((start.div (powerOfTen 308)).div (powerOfTen (-(exponent + 308)).toNat))
  else some .zero

/-- The value of a number. Whole numbers of 64 bits are exact; of others, the digits that fit into
64 bits count. -/
def NumberParts.value (parts : NumberParts) (negative : Bool) : Except JsonError Found :=
  let (significand, dropped) := appendDigits 0 parts.whole
  let least : Nat := 0x8000000000000000
  if dropped.isEmpty && parts.fraction.isEmpty && parts.exponent.isNone
      && (!negative || (0 < significand && significand ≤ least)) then
    .ok (.integer (if negative then -(significand : Int) else significand))
  else
    let (significand, ignored) := appendDigits significand parts.fraction
    let exponent : Int := dropped.length - (parts.fraction.length - ignored.length : Nat)
    match scaleByTen significand (exponent + parts.exponent.getD 0) with
    | some value => .ok (.float negative value)
    | none => .error .malformed

/-- The value of the number at the start of a text, behind its sign. -/
def readNumber (negative : Bool) (text : List Char) : Except JsonError (Found × List Char) := do
  let (parts, rest) ← takeNumber text
  let value ← parts.value negative
  return (value, rest)

/-- The text behind a number whose value nobody uses. -/
def skipNumber (text : List Char) : Except JsonError (List Char) :=
  match takeNumber text with
  | .ok (_, rest) => .ok rest
  | .error _ => .error .malformed

/-! ## Texts -/

def hexDigit? (c : Char) : Option Nat :=
  if '0' ≤ c ∧ c ≤ '9' then some (c.toNat - '0'.toNat)
  else if 'a' ≤ c ∧ c ≤ 'f' then some (c.toNat - 'a'.toNat + 10)
  else if 'A' ≤ c ∧ c ≤ 'F' then some (c.toNat - 'A'.toNat + 10)
  else none

/-- The four hexadecimal digits at the start of a text; the text ends too early if it has less than
four bytes. -/
def takeHex (text : List Char) : Except JsonError (Nat × List Char) :=
  if byteLength (text.take 4) < 4 then .error .truncated
  else
    match text with
    | a :: b :: c :: d :: rest =>
      match hexDigit? a, hexDigit? b, hexDigit? c, hexDigit? d with
      | some a, some b, some c, some d => .ok (((a * 16 + b) * 16 + c) * 16 + d, rest)
      | _, _, _, _ => .error .malformed
    | _ => .error .malformed

/-- The character of an escape that is one letter. -/
def shortEscape? : Char → Option Char
  | '"' => some '"'
  | '\\' => some '\\'
  | '/' => some '/'
  | 'b' => some '\x08'
  | 'f' => some '\x0c'
  | 'n' => some '\n'
  | 'r' => some '\r'
  | 't' => some '\t'
  | _ => none

/-- The character of a hexadecimal escape, behind its `u`. A high surrogate must be followed by the
escape of a low one, and a low surrogate cannot come first. -/
def takeCodePoint (text : List Char) : Except JsonError (Char × List Char) := do
  let (high, rest) ← takeHex text
  if 0xdc00 ≤ high ∧ high ≤ 0xdfff then throw .malformed
  else if high < 0xd800 ∨ 0xdbff < high then return (Char.ofNat high, rest)
  else
    let rest ← dropWord ['\\', 'u'] rest
    let (low, rest) ← takeHex rest
    if low < 0xdc00 ∨ 0xdfff < low then throw .malformed
    else return (Char.ofNat (0x10000 + (high - 0xd800) * 0x400 + (low - 0xdc00)), rest)

/-- The first character of the inside of a text. -/
def takeChar : List Char → Except JsonError (Char × List Char)
  | [] => .error .truncated
  | '\\' :: rest =>
    match rest with
    | [] => .error .truncated
    | 'u' :: rest => takeCodePoint rest
    | c :: rest =>
      match shortEscape? c with
      | some c => .ok (c, rest)
      | none => .error .malformed
  | c :: rest => if c.toNat < 0x20 then .error .malformed else .ok (c, rest)

/-- Text behind the first character of the inside of a text whose value nobody uses. -/
def skipChar : List Char → Except JsonError (List Char)
  | [] => .error .truncated
  | '\\' :: rest =>
    match rest with
    | [] => .error .truncated
    | 'u' :: rest => (takeHex rest).map Prod.snd
    | c :: rest => if (shortEscape? c).isSome then .ok rest else .error .malformed
  | c :: rest => if c.toNat < 0x20 then .error .malformed else .ok rest

/-- Number of characters up to the closing quote, that one included. -/
def closingBound : List Char → Nat
  | [] | ['\\'] => 1
  | '"' :: _ => 1
  | '\\' :: _ :: rest => closingBound rest + 2
  | _ :: rest => closingBound rest + 1

/-- The inside of a text up to its closing quote. Each step consumes a character, so the bound is
not reached if it is above the number of characters up to that quote. -/
def readChars : Nat → List Char → Except JsonError (List Char × List Char)
  | 0, _ => .error .truncated
  | _ + 1, '"' :: rest => .ok ([], rest)
  | bound + 1, text => do
    let (c, rest) ← takeChar text
    let (chars, rest) ← readChars bound rest
    return (c :: chars, rest)

/-- The text behind an opening quote. -/
def readText (text : List Char) : Except JsonError (String × List Char) :=
  match readChars (closingBound text + 1) text with
  | .ok (chars, rest) => .ok (String.ofList chars, rest)
  | .error e => .error e

/-- What follows the closing quote of a text whose value nobody uses. -/
def skipChars : Nat → List Char → Except JsonError (List Char)
  | 0, _ => .error .truncated
  | _ + 1, '"' :: rest => .ok rest
  | bound + 1, text => do
    let rest ← skipChar text
    skipChars bound rest

def skipText (text : List Char) : Except JsonError (List Char) :=
  skipChars (closingBound text + 1) text

/-! ## Unexpected values -/

/-- The value that starts here, as far as a message names it. -/
def found : List Char → Except JsonError Found
  | [] => .error .truncated
  | 'n' :: rest => (dropWord ['u', 'l', 'l'] rest).map fun _ => .null
  | 't' :: rest => (dropWord ['r', 'u', 'e'] rest).map fun _ => .bool true
  | 'f' :: rest => (dropWord ['a', 'l', 's', 'e'] rest).map fun _ => .bool false
  | '-' :: rest => (readNumber true rest).map Prod.fst
  | '"' :: rest => (readText rest).map fun (value, _) => .text value
  | '[' :: _ => .ok .sequence
  | '\x7b' :: _ => .ok .map
  | c :: rest =>
    if c.isDigit then (readNumber false (c :: rest)).map Prod.fst else .error .malformed

/-- The problem of a value that is not what was expected. -/
def unexpected (expected : String) (text : List Char) : JsonError :=
  match found text with
  | .ok value => .mismatch (.invalidType value expected)
  | .error e => e

end Json
end BindingPlan
