import BindingPlan.Proofs.Token.Coverage
import BindingPlan.Proofs.Token.Slices
import BindingPlan.Proofs.Token.Spelling

/-!
# Tokens with spaces between them

A token ends where a space follows it: a longer word would have the space inside, as only a text or
a character has, and those end with their closing quote mark whatever follows. So the tokens of a
source, written with one space between them, are its tokens again.

Main definitions:

* `respaced?`: the source with one space between its tokens.

Main results:

* `eq_of_quoted_prefix`: no literal between quote marks goes on as a longer one.
* `firstPiece_of_space`: a token in front of a space.
* `lex_respaced`: the tokens of the respaced source.
-/

namespace BindingPlan

open scoped Computability

variable {word longer inner inner' rest rest' after text : List Char} {quote : Char}
  {rule other : Rule} {token : Token} {piece : Piece} {ps : List Piece}

/-! ## Literals between quote marks -/

/-- Units end at the first quote mark behind units. -/
theorem length_units_le (hquote : quote ≠ '\\') (h : inner ∈ (unitIn quote)∗)
    (h' : inner' ∈ (unitIn quote)∗) (heq : inner ++ quote :: rest = inner' ++ quote :: rest') :
    inner.length = inner'.length := by
  have hunits := (longest_units hquote (inner ++ quote :: rest)).2
  -- in front of a quote mark, units are as long as they can be
  have hlongest {units behind : List Char} (hmem : units ∈ (unitIn quote)∗)
      (heq : units ++ quote :: behind = inner ++ quote :: rest) :
      units.length = countUnits quote (inner ++ quote :: rest) := by
    obtain ⟨hle, hmore⟩ := hunits units hmem (quote :: behind) heq
    refine Nat.le_antisymm hle (Nat.le_of_not_lt fun hlt => ?_)
    obtain ⟨c, hc, hne⟩ := hmore hlt
    exact hne (Option.mem_some.mp hc).symm
  rw [hlongest h rfl, hlongest h' heq.symm]

/-- A literal between quote marks is not the beginning of another one. -/
theorem eq_of_quoted_prefix (hquote : quote ≠ '\\') (hword : word ∈ (Rule.text quote).language)
    (hlonger : longer ∈ (Rule.text quote).language) (hfront : word <+: longer) :
    word = longer := by
  obtain ⟨_, ⟨_, rfl, rfl⟩, _, hinner, rfl⟩ := Language.mem_mul.mp hword
  obtain ⟨inner, hunits, _, ⟨_, rfl, rfl⟩, rfl⟩ := Language.mem_mul.mp hinner
  obtain ⟨_, ⟨_, rfl, rfl⟩, _, hinner', rfl⟩ := Language.mem_mul.mp hlonger
  obtain ⟨inner', hunits', _, ⟨_, rfl, rfl⟩, rfl⟩ := Language.mem_mul.mp hinner'
  refine hfront.eq_of_length ?_
  obtain ⟨rest, hrest⟩ := hfront
  simp only [List.append_assoc, List.cons_append, List.cons.injEq, true_and] at hrest
  simp only [List.length_append, length_units_le hquote hunits hunits' hrest]

theorem char_mem_text (h : word ∈ Rule.char.language) : word ∈ (Rule.text '\'').language := by
  obtain ⟨opening, hopening, _, hinner, rfl⟩ := Language.mem_mul.mp h
  obtain ⟨unit, hunit, closing, hclosing, rfl⟩ := Language.mem_mul.mp hinner
  have hunits : unit ∈ (unitIn '\'')∗ :=
    mem_kstar_iff.mpr (.inr ⟨unit, hunit, [], Language.nil_mem_kstar _, List.append_nil unit⟩)
  exact Language.append_mem_mul hopening (Language.append_mem_mul hunits hclosing)

/-! ## Words in front of a space -/

/-- No rule accepts a word together with a space behind it. -/
theorem length_le_of_space (hmem : rule ∈ Rule.all) (hword : word ∈ rule.language)
    (hmem' : other ∈ Rule.all) (hlonger : longer ∈ other.language)
    (hfront : longer <+: word ++ ' ' :: rest) : longer.length ≤ word.length := by
  by_contra hlt
  have hfront' : word <+: longer :=
    List.prefix_of_prefix_length_le (List.prefix_append word _) hfront (by omega)
  have hspace : ' ' ∈ longer := by
    have hspaced : word ++ [' '] <+: longer := by
      refine List.prefix_of_prefix_length_le ?_ hfront ?_
      · exact (List.prefix_append_right_inj word).mpr ⟨rest, rfl⟩
      · rw [List.length_append, List.length_singleton]
        omega
    exact hspaced.subset (List.mem_append_right word List.mem_cons_self)
  -- so it is a literal between quote marks, and the word is one that starts with the same mark
  have hquoted : (∃ quote, other = .text quote) ∨ other = .char := by
    rcases other.consists_language with h | h | hconsists
    · exact .inl h
    · exact .inr h
    · exact absurd (hconsists longer hlonger ' ' hspace) (by decide)
  obtain ⟨c, letters, rfl⟩ := List.exists_cons_of_ne_nil (Rule.ne_nil_of_mem_language hword)
  obtain ⟨letters', rfl⟩ := hfront'
  obtain rfl : rule = other :=
    eq_of_starts_quote hquoted hmem' (Rule.starts_of_mem_language hmem' hlonger) hmem
      (Rule.starts_of_mem_language hmem hword)
  have heq : c :: letters = c :: letters ++ letters' := by
    rcases hquoted with ⟨quote, rfl⟩ | rfl
    · have hquote : quote ≠ '\\' := by rcases quote_of_mem_all hmem with rfl | rfl <;> decide
      exact eq_of_quoted_prefix hquote hword hlonger (List.prefix_append _ _)
    · exact eq_of_quoted_prefix (by decide) (char_mem_text hword) (char_mem_text hlonger)
        (List.prefix_append _ _)
  exact hlt (Nat.le_of_eq (congrArg List.length heq).symm)

/-- A token is cut off in front of a space, whatever stood behind it. -/
theorem firstPiece_of_space (h : firstPiece (word ++ after) = (word.length, .ok token))
    (rest : List Char) : firstPiece (word ++ ' ' :: rest) = (word.length, .ok token) := by
  obtain ⟨rule, hrule, htoken⟩ := longestRule?_of_firstPiece h
  have hword := take_mem_of_longestRule? hrule
  rw [List.take_left] at hword
  have hspaced : longestRule? Rule.all (word ++ ' ' :: rest) = some (rule, word.length) := by
    refine longestRule?_of_le hrule fun other hother m hm => ?_
    obtain ⟨hle, hlonger⟩ := Rule.take_mem_language hother hm
    have hfront := List.take_prefix m (word ++ ' ' :: rest)
    have hlength := length_le_of_space (mem_of_longestRule? hrule) hword hother hlonger hfront
    have hfront' : (word ++ ' ' :: rest).take m <+: word ++ after :=
      (List.prefix_of_prefix_length_le hfront (List.prefix_append word _) hlength).trans
        (List.prefix_append word after)
    rw [← List.length_take_of_le hle]
    exact Rule.exists_le_longest? hother hlonger hfront'
  rw [firstPiece_append hspaced, htoken]

/-- Nothing follows, or a space. -/
def SpaceEnd (rest : List Char) : Prop :=
  ∀ c ∈ rest.head?, c = ' '

theorem firstPiece_of_spaceEnd (h : firstPiece (word ++ after) = (word.length, .ok token))
    (hrest : SpaceEnd rest) : firstPiece (word ++ rest) = (word.length, .ok token) := by
  cases rest with
  | nil => exact firstPiece_of_shorter h List.nil_prefix
  | cons c rest =>
    obtain rfl : c = ' ' := hrest c rfl
    exact firstPiece_of_space h rest

/-! ## Tokens in a row -/

theorem spells_nil (ends : List Char → Prop) : Spells ends [] [] :=
  fun _ _ _ => ⟨[], rfl, rfl⟩

theorem spells_piece {source : List Char} (hpiece : piece ∈ pieces 0 source)
    (htoken : piece.content = .ok token) : Spells SpaceEnd piece.text [token] := by
  obtain ⟨before, after, hcut⟩ := exists_cutFrom hpiece
  have hfirst := hcut.firstPiece_eq
  rw [htoken] at hfirst
  exact spells_word hcut.ne_nil fun rest hrest => firstPiece_of_spaceEnd hfirst hrest

/-- Pieces with one space between them spell their tokens. -/
theorem spells_intercalate
    (h : ∀ p ∈ ps, ∃ token, p.content = .ok token ∧ Spells SpaceEnd p.text [token]) :
    Spells SpaceEnd ([' '].intercalate (ps.map Piece.text))
      ((ps.filterMap Piece.lexeme?).map Lexeme.token) := by
  induction ps with
  | nil => exact spells_nil SpaceEnd
  | cons p ps ih =>
    obtain ⟨⟨token, htoken, hspells⟩, hps⟩ := List.forall_mem_cons.mp h
    have hlexeme : p.lexeme? = some ⟨token, p.span⟩ := Piece.lexeme?_eq_some_iff.mpr ⟨htoken, rfl⟩
    rw [List.filterMap_cons_some hlexeme, List.map_cons, List.map_cons]
    cases ps with
    | nil => simpa using hspells
    | cons next ps =>
      have hmore := (spells_blank fun _ => True).append (ih hps) fun _ _ => trivial
      have hall := hspells.append hmore fun _ _ _ hc => (Option.mem_some.mp hc).symm
      simpa using hall

/-! ## Respaced sources -/

/-- The characters of each token of a source, in order. -/
def tokenTexts? (source : String) : Option (List (List Char)) :=
  (lex source).tokens.mapM fun lexeme => lexeme.span.slice? source.toList

/-- The tokens of a source, with one space between each and the next. -/
def respaced? (source : String) : Option String :=
  (tokenTexts? source).map fun texts => String.ofList ([' '].intercalate texts)

theorem Piece.CutFrom.slice?_eq {source before after : List Char}
    (h : piece.CutFrom source before after) : piece.span.slice? source = some piece.text := by
  rw [h.source_eq, h.span_eq]
  exact Span.slice?_append before piece.text after

/-- The characters of tokens are those of their pieces. -/
theorem slices_of_contents {source : List Char}
    (h : ∀ p ∈ ps, p.span.slice? source = some p.text ∧ ∃ token, p.content = .ok token) :
    (ps.filterMap Piece.lexeme?).mapM (fun lexeme => lexeme.span.slice? source) =
      some (ps.map Piece.text) := by
  induction ps with
  | nil => rfl
  | cons p ps ih =>
    obtain ⟨⟨hslice, token, htoken⟩, hps⟩ := List.forall_mem_cons.mp h
    have hlexeme : p.lexeme? = some ⟨token, p.span⟩ := Piece.lexeme?_eq_some_iff.mpr ⟨htoken, rfl⟩
    rw [List.filterMap_cons_some hlexeme, List.mapM_cons, ih hps, hslice]
    rfl

/-- A source without errors has the same tokens with one space between them. -/
theorem lex_respaced {source : String} (h : (lex source).errors = []) :
    ∃ spaced, respaced? source = some spaced ∧ (lex spaced).errors = [] ∧
      (lex spaced).tokens.map Lexeme.token = (lex source).tokens.map Lexeme.token := by
  have hok : ∀ p ∈ pieces 0 source.toList, ∃ token, p.content = .ok token := fun p hp =>
    Piece.error?_eq_none_iff.mp (List.filterMap_eq_nil_iff.mp h p hp)
  have htexts : tokenTexts? source = some ((pieces 0 source.toList).map Piece.text) := by
    refine slices_of_contents fun p hp => ⟨?_, hok p hp⟩
    obtain ⟨_, _, hcut⟩ := exists_cutFrom hp
    exact hcut.slice?_eq
  have hspells := spells_intercalate fun p hp => by
    obtain ⟨token, htoken⟩ := hok p hp
    exact ⟨token, htoken, spells_piece hp htoken⟩
  refine ⟨_, by rw [respaced?, htexts, Option.map_some], ?_⟩
  rw [← String.toList_ofList (l := [' '].intercalate _)] at hspells
  obtain ⟨htokens, herrors⟩ := hspells.lex_eq fun _ hc => by cases hc
  exact ⟨herrors, htokens⟩

end BindingPlan
