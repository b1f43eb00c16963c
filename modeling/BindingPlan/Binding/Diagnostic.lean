import BindingPlan.Graph.Basic
import BindingPlan.Tree.Parser

/-!
# Diagnostics

What is wrong with a binding expression: a message with a code, the span of the source that it is
about, and the errors behind it.

Main definitions:

* `Diagnostic.render?`: the message with an excerpt of the source.
-/

namespace BindingPlan

/-- How serious a diagnostic is (`DiagLevel`). -/
inductive Level where
  | error
  | warning
deriving DecidableEq, Repr

def Level.name : Level → String
  | .error => "error"
  | .warning => "warning"

/-- An error behind a diagnostic (`CauseRecord`). -/
structure Cause where
  message : String
  span : Option Span
deriving DecidableEq, Repr

/-- What is wrong with a binding (`Diagnostic`). -/
structure Diagnostic where
  code : Option String
  level : Level
  span : Span
  message : String
  hint : Option String
  causes : List Cause
deriving DecidableEq, Repr

namespace DiagnosticCode

def malformed : String := "E0001"

/-- A piece of source that is no token. -/
def lexical : String := "E0002"

/-- A name that is no variable, no import and no class. -/
def unknownIdentifier : String := "E0101"

/-- A member that the type of its receiver does not have. -/
def unresolvedMember : String := "E0102"

/-- A step that the state of the graph does not allow. -/
def internal : String := "E0201"

end DiagnosticCode

namespace Diagnostic

/-- An error without hint and causes (`error`). -/
def error (code : String) (span : Span) (message : String) : Diagnostic :=
  ⟨some code, .error, span, message, none, []⟩

def ofLexError (e : LexError) : Diagnostic :=
  error DiagnosticCode.lexical e.span e.message

/-- The diagnostic of a syntax error (`from_parse_error`). -/
def ofSyntaxError (e : SyntaxError) : Diagnostic :=
  error DiagnosticCode.malformed e.span e.message

/-- The diagnostic of an operation that failed (`from_model_error`), about the fallback unless the
failing node has a span. -/
def ofGraphError (e : GraphError) (fallback : Span) : Diagnostic :=
  match e with
  | .resolution key span cause =>
    let span := span.getD fallback
    { error DiagnosticCode.unresolvedMember span ("cannot resolve `" ++ key ++ "`") with
      causes := [⟨cause.message, some span⟩] }
  | e => error DiagnosticCode.internal fallback e.message

/-- The message in one line (`fmt`), and the hint in a second one. -/
def headline (d : Diagnostic) : String :=
  let code := d.code.elim "" fun code => "[" ++ code ++ "]"
  let hint := d.hint.elim "" fun hint => "\n  hint: " ++ hint
  d.level.name ++ code ++ ": " ++ d.message ++ hint

/-- The characters in front of a span and those that it covers, where the span is first cut to the
source; `none` if one of its ends is inside a character. -/
def excerpt? (span : Span) (source : List Char) : Option (List Char × List Char) := do
  let length := byteLength source
  let start := if span.start ≤ length then span.start else length
  let stop := if span.stop ≤ length then span.stop else length
  let (before, rest) ← splitAtByte source start
  let (covered, _) ← splitAtByte rest (stop - start)
  return (before, covered)

/-- The message with the source and a mark under the span (`render`); `none` if the span cuts a
character. -/
def render? (d : Diagnostic) (origin source : String) : Option String := do
  let (before, covered) ← excerpt? d.span source.toList
  let column := before.length
  let width := if covered.isEmpty then 1 else covered.length
  let spaces := String.ofList (List.replicate column ' ')
  let marks := String.ofList (List.replicate width '^')
  let causes := d.causes.map fun cause => "   = caused by: " ++ cause.message ++ "\n"
  return d.headline ++ "\n  --> " ++ origin ++ ":" ++ toString (column + 1) ++ "\n   | " ++ source
    ++ "\n   | " ++ spaces ++ marks ++ "\n" ++ String.join causes

end Diagnostic
end BindingPlan
