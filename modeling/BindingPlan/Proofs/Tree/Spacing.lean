import BindingPlan.Proofs.Token.Spacing
import BindingPlan.Proofs.Tree.MapSpans

/-!
# Spacing

The parser looks at tokens and not at the places where they stand, whether it finds a tree or an
impossible token. So a source without lexical errors parses like its tokens with one space between
them, but for the spans.

Main definitions:

* `eraseSpans`: the outcome of parsing with all spans forgotten.

Main results:

* `parseFrom_mapSpans`: parsing tokens with changed spans, to a tree or to an error.
* `parse_respaced`: a source parses like its respaced form.
-/

namespace BindingPlan

variable {f : Span → Span} {stop stop' : Nat}

/-! ## Outcomes with changed spans -/

def SyntaxError.mapSpan (f : Span → Span) (error : SyntaxError) : SyntaxError :=
  { error with span := f error.span }

/-- The outcome of parsing with all its spans changed. -/
def mapOutcomeSpans (f : Span → Span) : Except SyntaxError Tree → Except SyntaxError Tree
  | .ok tree => .ok (tree.mapSpans f)
  | .error error => .error (error.mapSpan f)

/-- The outcome of parsing with all its spans forgotten. -/
def eraseSpans : Except SyntaxError Tree → Except SyntaxError Tree :=
  mapOutcomeSpans fun _ => default

theorem closers_mapSpans (stack : List Frame) :
    closers (stack.map (Frame.mapSpans f)) = closers stack := by
  induction stack with
  | nil => rfl
  | cons frame stack ih => cases frame <;> first | exact ih | rfl

/-- What can stand at a place does not depend on spans. -/
theorem ParseState.expected_mapSpans (state : ParseState) :
    (state.mapSpans f).expected = state.expected := by
  cases state <;> simp only [mapSpans, expected, continuations, closers_mapSpans]

section

variable (hf : ∀ first last : Span, f (first.to last) = (f first).to (f last))

include hf

theorem ParseState.finish?_mapSpans (state : ParseState) :
    (state.mapSpans f).finish? = state.finish?.map (Tree.mapSpans f) := by
  cases state with
  | named receiver name stack =>
    simp only [mapSpans, finish?, ← mapSpans_fieldOf hf, reduceAll_mapSpans hf]
    rcases reduceAll stack (fieldOf receiver name) with ⟨tree, _ | ⟨frame, rest⟩⟩ <;> rfl
  | complete last stack =>
    simp only [mapSpans, finish?, reduceAll_mapSpans hf]
    rcases reduceAll stack last with ⟨tree, _ | ⟨frame, rest⟩⟩ <;> rfl
  | operand | firstArgument | member => rfl

/-- Parsing tokens with changed spans has the same outcome with its spans changed. -/
theorem parseFrom_mapSpans (hstop : f ⟨stop, stop⟩ = ⟨stop', stop'⟩) (state : ParseState)
    (lexemes : List Lexeme) :
    parseFrom stop' (state.mapSpans f) (lexemes.map (Lexeme.mapSpan f)) =
      mapOutcomeSpans f (parseFrom stop state lexemes) := by
  induction lexemes generalizing state with
  | nil =>
    rw [List.map_nil, parseFrom, parseFrom, ParseState.finish?_mapSpans hf,
      ParseState.expected_mapSpans]
    cases state.finish? with
    | some tree => rfl
    | none => rw [← hstop]; rfl
  | cons lexeme lexemes ih =>
    rw [List.map_cons, parseFrom, parseFrom, ParseState.step?_mapSpans hf,
      ParseState.expected_mapSpans]
    cases state.step? lexeme with
    | some next => exact ih next
    | none => rfl

end

/-- The same tokens have the same outcome up to spans, wherever they stand. -/
theorem eraseSpans_parseTokens {lexemes lexemes' : List Lexeme}
    (h : lexemes.map Lexeme.token = lexemes'.map Lexeme.token) :
    eraseSpans (parseTokens stop lexemes) = eraseSpans (parseTokens stop' lexemes') := by
  have hspanless (l : List Lexeme) : l.map (Lexeme.mapSpan fun _ => default) =
      (l.map Lexeme.token).map fun token => ⟨token, default⟩ := by
    rw [List.map_map]
    rfl
  have herase (stop : Nat) (l : List Lexeme) : eraseSpans (parseTokens stop l) =
      parseFrom 0 .start ((l.map Lexeme.token).map fun token => ⟨token, default⟩) := by
    rw [← hspanless]
    exact (parseFrom_mapSpans (fun _ _ => rfl) rfl .start l).symm
  rw [herase, herase, h]

/-- A source without lexical errors, with one space between its tokens, has no lexical errors, the
same tokens, and the same tree or syntax error up to spans. -/
theorem parse_respaced {source : String} (h : (lex source).errors = []) :
    ∃ spaced, respaced? source = some spaced ∧ (lex spaced).errors = [] ∧
      (lex spaced).tokens.map Lexeme.token = (lex source).tokens.map Lexeme.token ∧
      (parse spaced).lexErrors = [] ∧
      eraseSpans (parse spaced).result = eraseSpans (parse source).result := by
  obtain ⟨spaced, hspaced, herrors, htokens⟩ := lex_respaced h
  exact ⟨spaced, hspaced, herrors, htokens, herrors, eraseSpans_parseTokens htokens⟩

/-- Operators, numbers with a point and with a suffix, a text with spaces and a quote mark inside,
all close together, and nothing behind the last operator. -/
theorem parse_respaced_dense :
    let source := "a==b.c(\"x  \\\"y\",1.5e3f/'\\'')??7L!="
    let spaced := "a == b . c ( \"x  \\\"y\" , 1.5e3f / '\\'' ) ?? 7L !="
    (lex source).errors = [] ∧ respaced? source = some spaced ∧ (lex spaced).errors = [] ∧
      (lex spaced).tokens.map Lexeme.token = (lex source).tokens.map Lexeme.token ∧
      eraseSpans (parse spaced).result = eraseSpans (parse source).result := by
  intro source spaced
  have herrors : (lex source).errors = [] := by decide +kernel
  have hspaced : respaced? source = some spaced := by decide +kernel
  obtain ⟨other, hother, herrors', htokens, -, hresult⟩ := parse_respaced herrors
  obtain rfl : spaced = other := Option.some.inj (hspaced.symm.trans hother)
  exact ⟨herrors, hspaced, herrors', htokens, hresult⟩

end BindingPlan
