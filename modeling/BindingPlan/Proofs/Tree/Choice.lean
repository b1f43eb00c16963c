import BindingPlan.Tree.Descent

/-!
# Laws of ordered choice

What a parser that is put together from others makes of some tokens, by what its parts make of them.
`Tried` tells where the furthest failure is while tokens are read: in front of the tokens that are
left, or right there.

Main results:

* `Tried.failed`, `Tried.passed`: another failure at the place, and a token that is read.
* `TokenParser.many_of_read`, `TokenParser.foldMany_of_read`: one round of a repetition.
-/

namespace BindingPlan

variable {α β : Type} {failure failure' : Option ParseFailure} {lexemes rest : List Lexeme}
  {expectation : Expectation} {expected : List Expectation}

/-! ## Failures -/

/-- All failures are in front of the tokens, or the furthest is there and has tried the list. -/
def Tried (failure : Option ParseFailure) (lexemes : List Lexeme) : List Expectation → Prop
  | [] => ∀ f, failure = some f → lexemes.length < f.rest.length
  | expectation :: expected => failure = some ⟨lexemes, expectation :: expected⟩

theorem Tried.eq (h : Tried failure lexemes (expectation :: expected)) :
    failure = some ⟨lexemes, expectation :: expected⟩ := h

theorem furthest_of_lt {f next : ParseFailure} (h : next.rest.length < f.rest.length) :
    furthest (some f) next = next :=
  if_pos h

theorem furthest_of_gt {f next : ParseFailure} (h : f.rest.length < next.rest.length) :
    furthest (some f) next = f := by
  rw [furthest, if_neg (Nat.lt_asymm h), if_pos h]

theorem furthest_of_eq : furthest (some ⟨lexemes, expected⟩) ⟨lexemes, [expectation]⟩ =
    ⟨lexemes, if expectation ∈ expected then expected else expected ++ [expectation]⟩ := by
  by_cases hold : expectation ∈ expected <;> simp [furthest, hold]

/-- Another failure at the place: what it tried is added unless it was tried there before. -/
theorem Tried.failed (h : Tried failure lexemes expected) (expectation : Expectation) :
    Tried (some (furthest failure ⟨lexemes, [expectation]⟩)) lexemes
      (if expectation ∈ expected then expected else expected ++ [expectation]) := by
  cases expected with
  | nil =>
    cases failure with
    | none => rfl
    | some f => exact congrArg some (furthest_of_lt (h f rfl))
  | cons first expected =>
    rw [h.eq, furthest_of_eq]
    split <;> rfl

theorem Tried.failed_of_notMem (h : Tried failure lexemes expected) (expectation : Expectation)
    (hnew : expectation ∉ expected) :
    Tried (some (furthest failure ⟨lexemes, [expectation]⟩)) lexemes
      (expected ++ [expectation]) := by
  have hfailed := h.failed expectation
  rwa [if_neg hnew] at hfailed

theorem Tried.failed_of_mem (h : Tried failure lexemes expected) (hold : expectation ∈ expected) :
    Tried (some (furthest failure ⟨lexemes, [expectation]⟩)) lexemes expected := by
  have hfailed := h.failed expectation
  rwa [if_pos hold] at hfailed

/-- A place further on. -/
theorem Tried.passed (h : Tried failure lexemes expected) (hlt : rest.length < lexemes.length) :
    Tried failure rest [] := by
  rintro f rfl
  cases expected with
  | nil => exact Nat.lt_trans hlt (h f rfl)
  | cons first expected =>
    cases h
    exact hlt

/-! ## Parsers -/

namespace TokenParser

variable {parser other : TokenParser α} {next : α → TokenParser β} {value : α} {lexeme : Lexeme}

theorem bind_of_failed (h : parser failure lexemes = ⟨failure', none⟩) :
    (parser >>= next) failure lexemes = ⟨failure', none⟩ := by
  unfold Bind.bind
  dsimp only [Monad.toBind, instMonad]
  rw [h]

theorem bind_of_read (h : parser failure lexemes = ⟨failure', some (value, rest)⟩) :
    (parser >>= next) failure lexemes = next value failure' rest := by
  unfold Bind.bind
  dsimp only [Monad.toBind, instMonad]
  rw [h]

theorem both_of_read {second : TokenParser β} {failure'' : Option ParseFailure}
    {behind : List Lexeme} {other : β} (h : parser failure lexemes = ⟨failure', some (value, rest)⟩)
    (hother : second failure' rest = ⟨failure'', some (other, behind)⟩) :
    both parser second failure lexemes = ⟨failure'', some ((value, other), behind)⟩ :=
  (bind_of_read h).trans (bind_of_read hother)

theorem both_of_failed {second : TokenParser β} (h : parser failure lexemes = ⟨failure', none⟩) :
    both parser second failure lexemes = ⟨failure', none⟩ :=
  bind_of_failed h

theorem both_of_second_failed {second : TokenParser β} {failure'' : Option ParseFailure}
    (h : parser failure lexemes = ⟨failure', some (value, rest)⟩)
    (hother : second failure' rest = ⟨failure'', none⟩) :
    both parser second failure lexemes = ⟨failure'', none⟩ :=
  (bind_of_read h).trans (bind_of_failed hother)

theorem either_of_failed (h : parser failure lexemes = ⟨failure', none⟩) :
    either parser other failure lexemes = other failure' lexemes := by
  unfold either
  rw [h]

theorem either_of_read (h : parser failure lexemes = ⟨failure', some (value, rest)⟩) :
    either parser other failure lexemes = ⟨failure', some (value, rest)⟩ := by
  unfold either
  rw [h]

theorem optional_of_failed (h : parser failure lexemes = ⟨failure', none⟩) :
    optional parser failure lexemes = ⟨failure', some (none, lexemes)⟩ :=
  either_of_failed (bind_of_failed h)

theorem optional_of_read (h : parser failure lexemes = ⟨failure', some (value, rest)⟩) :
    optional parser failure lexemes = ⟨failure', some (some value, rest)⟩ :=
  either_of_read (bind_of_read h)

theorem many_of_failed (h : parser failure lexemes = ⟨failure', none⟩) :
    many parser failure lexemes = ⟨failure', some ([], lexemes)⟩ := by
  rw [many, h]

theorem many_of_read (h : parser failure lexemes = ⟨failure', some (value, rest)⟩)
    (hlt : rest.length < lexemes.length) :
    many parser failure lexemes = (do return value :: (← many parser) : TokenParser (List α))
      failure' rest := by
  rw [many, h]
  simp only [if_pos hlt]
  rcases hmore : many parser failure' rest with ⟨f, _ | ⟨values, behind⟩⟩
  · rw [bind_of_failed hmore]
    rfl
  · rw [bind_of_read hmore]
    rfl

/-- A repetition whose values are used by what follows. -/
theorem bind_many_of_read {next : List α → TokenParser β}
    (h : parser failure lexemes = ⟨failure', some (value, rest)⟩)
    (hlt : rest.length < lexemes.length) : (many parser >>= next) failure lexemes =
      (many parser >>= fun values => next (value :: values)) failure' rest := by
  rcases hmore : many parser failure' rest with ⟨f, _ | ⟨values, behind⟩⟩
  · rw [bind_of_failed hmore, bind_of_failed]
    rw [many_of_read h hlt]
    exact bind_of_failed hmore
  · have hmany : many parser failure lexemes = ⟨f, some (value :: values, behind)⟩ :=
      (many_of_read h hlt).trans (bind_of_read hmore)
    rw [bind_of_read hmore, bind_of_read hmany]

theorem many_succeeds (parser : TokenParser α) (failure : Option ParseFailure)
    (lexemes : List Lexeme) :
    ∃ failure' values rest, many parser failure lexemes = ⟨failure', some (values, rest)⟩ := by
  fun_induction many parser failure lexemes with
  | case1 failure lexemes f h => exact ⟨_, _, _, rfl⟩
  | case2 failure lexemes f value rest h hlt more ih =>
    obtain ⟨f, values, behind, hmore⟩ := ih
    exact ⟨f, value :: values, behind, by simp [more, hmore]⟩
  | case3 failure lexemes f value rest h hlt => exact ⟨_, _, _, rfl⟩

section

variable {separator : TokenParser β} {γ : Type} {use : List α → TokenParser γ}

theorem separatedBy_of_failed (h : parser failure lexemes = ⟨failure', none⟩) :
    separatedBy separator parser failure lexemes = ⟨failure', some ([], lexemes)⟩ :=
  either_of_failed (bind_of_failed h)

/-- Values that are used by what follows, behind the first one. -/
theorem bind_separatedBy_of_read
    (h : parser failure lexemes = ⟨failure', some (value, rest)⟩) :
    (separatedBy separator parser >>= use) failure lexemes =
      (many (separator >>= fun _ => parser) >>= fun values => use (value :: values))
        failure' rest := by
  obtain ⟨f, values, behind, hmany⟩ := many_succeeds (separator >>= fun _ => parser) failure' rest
  have hvalues : separatedBy separator parser failure lexemes =
      ⟨f, some (value :: values, behind)⟩ :=
    either_of_read ((bind_of_read h).trans (bind_of_read hmany))
  rw [bind_of_read hvalues, bind_of_read hmany]

end

variable {combine : β → α → β} {start : β}

theorem foldMany_of_failed (h : parser failure lexemes = ⟨failure', none⟩) :
    foldMany combine parser start failure lexemes = ⟨failure', some (start, lexemes)⟩ :=
  bind_of_read (many_of_failed h)

theorem foldMany_of_read (h : parser failure lexemes = ⟨failure', some (value, rest)⟩)
    (hlt : rest.length < lexemes.length) : foldMany combine parser start failure lexemes =
      foldMany combine parser (combine start value) failure' rest :=
  bind_many_of_read h hlt

/-! ## One token -/

/-- A failure in front of the furthest one. -/
theorem fail_of_further {f : ParseFailure} (h : f.rest.length < lexemes.length) :
    (fail expectation : TokenParser α) (some f) lexemes = ⟨some f, none⟩ := by
  unfold fail
  rw [furthest_of_gt h]

theorem select_of_some {value? : Lexeme → Option α} (h : value? lexeme = some value) :
    select expectation value? failure (lexeme :: rest) = ⟨failure, some (value, rest)⟩ := by
  rw [select, h]

theorem select_of_none {value? : Lexeme → Option α}
    (h : ∀ lexeme ∈ lexemes.head?, value? lexeme = none) :
    select expectation value? failure lexemes = fail expectation failure lexemes := by
  cases lexemes with
  | nil => rfl
  | cons lexeme rest => rw [select, h lexeme rfl]

theorem just_of_eq {mark : Mark} (h : lexeme.token = .mark mark) :
    just mark failure (lexeme :: rest) = ⟨failure, some (lexeme, rest)⟩ :=
  select_of_some (if_pos h)

theorem just_of_ne {mark : Mark} (h : ∀ lexeme ∈ lexemes.head?, lexeme.token ≠ .mark mark) :
    just mark failure lexemes = fail (.mark mark) failure lexemes :=
  select_of_none fun lexeme hlexeme => if_neg (h lexeme hlexeme)

theorem endOfInput_of_ne (h : lexemes ≠ []) :
    endOfInput failure lexemes = fail .endOfInput failure lexemes := by
  cases lexemes with
  | nil => exact absurd rfl h
  | cons lexeme rest => rfl

end TokenParser
end BindingPlan
