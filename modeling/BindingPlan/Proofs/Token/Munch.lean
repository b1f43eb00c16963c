import BindingPlan.Proofs.Token.Cut
import BindingPlan.Proofs.Token.Literal

/-!
# Maximal munch

Every token is the longest beginning of the rest of the source in the language of any rule. No word
is in the languages of two rules unless it is a keyword, which is in the language of names as well;
so the longest beginning tells its token, up to keywords, and those are preferred to names.

An error stands where no rule has a beginning of the rest, or it is the longest one and has no
value.

Main definitions:

* `IsLongestWord`: the longest beginning of a text in the language of any rule.
* `Rejected`: a literal without a value, and why.

Main results:

* `Rule.eq_or_keyword_of_mem_language`: the rules of one word.
* `lex_munches`: tokens and errors are the longest words.
-/

namespace BindingPlan

open scoped Computability

variable {text word inner : List Char} {c quote : Char} {n : Nat} {rule other : Rule}
  {fault : LexFault}

/-! ## The rules of one word -/

theorem Rule.starts_of_mem_language (hmem : rule ∈ Rule.all) (h : c :: word ∈ rule.language) :
    rule.starts c = true :=
  starts_of_longest? (longest?_eq_length hmem h)

theorem point_mem_of_float (h : word ∈ Rule.float.language) : '.' ∈ word := by
  obtain ⟨whole, -, _, hpoint, rfl⟩ := Language.mem_mul.mp h
  obtain ⟨_, ⟨_, rfl, rfl⟩, rest, -, rfl⟩ := Language.mem_mul.mp hpoint
  exact List.mem_append_right whole List.mem_cons_self

theorem point_not_mem_of_int (h : word ∈ Rule.int.language) : '.' ∉ word := by
  obtain ⟨digits, hdigits, suffix, hsuffix, rfl⟩ := Language.mem_mul.mp h
  intro hpoint
  rcases List.mem_append.mp hpoint with hpoint | hpoint
  · cases (mem_rowOf.mp hdigits).2 _ hpoint
  · rcases hsuffix with ⟨d, hd, rfl⟩ | rfl
    · rw [← List.mem_singleton.mp hpoint] at hd
      rcases List.mem_pair.mp hd with hd | hd <;> cases hd
    · cases hpoint

/-- Only one rule starts with a quote mark. -/
theorem eq_of_starts_quote (hquote : (∃ quote, rule = .text quote) ∨ rule = .char)
    (hmem : rule ∈ Rule.all) (hrule : rule.starts c = true) (hmem' : other ∈ Rule.all)
    (hother : other.starts c = true) : other = rule := by
  have hdouble : ∀ other ∈ Rule.all, other.starts '"' = true → other = .text '"' := by decide
  have hback : ∀ other ∈ Rule.all, other.starts '\x60' = true → other = .text '\x60' := by decide
  have hsingle : ∀ other ∈ Rule.all, other.starts '\'' = true → other = .char := by decide
  rcases hquote with ⟨quote, rfl⟩ | rfl
  · obtain rfl : c = quote := beq_iff_eq.mp hrule
    rcases quote_of_mem_all hmem with rfl | rfl
    · exact hdouble other hmem' hother
    · exact hback other hmem' hother
  · obtain rfl : c = '\'' := beq_iff_eq.mp hrule
    exact hsingle other hmem' hother

/-- A word has one rule, unless it is a keyword, which is a name as well. -/
theorem Rule.eq_or_keyword_of_mem_language (hmem : rule ∈ Rule.all) (hmem' : other ∈ Rule.all)
    (h : word ∈ rule.language) (h' : word ∈ other.language) :
    other = rule ∨ (∃ m, rule = .mark m ∧ other = .name) ∨ ∃ m, rule = .name ∧ other = .mark m := by
  obtain ⟨c, rest, rfl⟩ := List.exists_cons_of_ne_nil (ne_nil_of_mem_language h)
  have hstarts := starts_of_mem_language hmem h
  have hstarts' := starts_of_mem_language hmem' h'
  have hdigit (hc : c.isDigit = true) : other = rule := by
    rcases eq_of_starts_digit hc hmem hstarts with rfl | rfl <;>
      rcases eq_of_starts_digit hc hmem' hstarts' with rfl | rfl
    · rfl
    · exact absurd (point_mem_of_float h) (point_not_mem_of_int h')
    · exact absurd (point_mem_of_float h') (point_not_mem_of_int h)
    · rfl
  cases rule with
  | float | int => exact .inl (hdigit hstarts)
  | text quote => exact .inl (eq_of_starts_quote (.inl ⟨quote, rfl⟩) hmem hstarts hmem' hstarts')
  | char => exact .inl (eq_of_starts_quote (.inr rfl) hmem hstarts hmem' hstarts')
  | mark m =>
    cases other with
    | mark m' =>
      have htext : m'.text.toList = m.text.toList := h'.symm.trans h
      exact .inl (congrArg Rule.mark (Mark.text_inj htext))
    | name => exact .inr (.inl ⟨m, rfl, rfl⟩)
    | float | int =>
      rw [starts_mark_of_isDigit hstarts'] at hstarts
      cases hstarts
    | text quote =>
      exact .inl (eq_of_starts_quote (.inl ⟨quote, rfl⟩) hmem' hstarts' hmem hstarts).symm
    | char => exact .inl (eq_of_starts_quote (.inr rfl) hmem' hstarts' hmem hstarts).symm
  | name =>
    cases other with
    | mark m => exact .inr (.inr ⟨m, rfl, rfl⟩)
    | name => exact .inl rfl
    | float | int =>
      rcases eq_of_starts_digit hstarts' hmem hstarts with h | h <;> cases h
    | text quote =>
      exact .inl (eq_of_starts_quote (.inl ⟨quote, rfl⟩) hmem' hstarts' hmem hstarts).symm
    | char => exact .inl (eq_of_starts_quote (.inr rfl) hmem' hstarts' hmem hstarts).symm

/-! ## Longest words -/

/-- The word is the longest beginning of the text in the language of any rule. -/
structure IsLongestWord (word text : List Char) : Prop where
  front : word <+: text
  accepted : ∃ rule ∈ Rule.all, word ∈ rule.language
  longest : ∀ rule ∈ Rule.all, ∀ other ∈ rule.language, other <+: text →
    other.length ≤ word.length

/-- No beginning of the text is in the language of a rule. -/
def NoWord (text : List Char) : Prop :=
  ∀ rule ∈ Rule.all, ∀ word ∈ rule.language, ¬ word <+: text

theorem take_mem_of_longestRule? (h : longestRule? Rule.all text = some (rule, n)) :
    text.take n ∈ rule.language := by
  obtain ⟨-, -, -, hlongest, -⟩ := longestRule?_eq_some h
  exact (Rule.take_mem_language (mem_of_longestRule? h) hlongest).2

theorem isLongestWord_of_longestRule? (h : longestRule? Rule.all text = some (rule, n)) :
    IsLongestWord (text.take n) text := by
  obtain ⟨-, -, -, hlongest, -⟩ := longestRule?_eq_some h
  have hmem := mem_of_longestRule? h
  obtain ⟨hle, hword⟩ := Rule.take_mem_language hmem hlongest
  refine ⟨List.take_prefix n text, ⟨rule, hmem, hword⟩, fun other hother word hword hfront => ?_⟩
  obtain ⟨m, hm, hlength⟩ := Rule.exists_le_longest? hother hword hfront
  rw [List.length_take, Nat.min_eq_left hle]
  exact Nat.le_trans hlength (le_of_longestRule? h other hother m hm)

theorem noWord_of_longestRule? (h : longestRule? Rule.all text = none) : NoWord text := by
  intro rule hmem word hword hfront
  obtain ⟨m, hm, -⟩ := Rule.exists_le_longest? hmem hword hfront
  rw [longestRule?_eq_none h rule hmem] at hm
  cases hm

/-- The chosen rule gives the token of every rule of its word; a name gives it only if no keyword
does. -/
theorem token_of_longestRule? (h : longestRule? Rule.all text = some (rule, n))
    (hmem : other ∈ Rule.all) (hother : text.take n ∈ other.language)
    (hname : other = .name → ∀ m : Mark, m.text.toList ≠ text.take n) : other = rule := by
  have hword := take_mem_of_longestRule? h
  rcases Rule.eq_or_keyword_of_mem_language (mem_of_longestRule? h) hmem hword hother with
    heq | ⟨m, rfl, hother⟩ | ⟨m, rfl, rfl⟩
  · exact heq
  · exact absurd hword.symm (hname hother m)
  · -- a keyword of the same length is preferred
    exact absurd hother.symm ((isName_of_longestRule? h).ne_mark m)

/-! ## Literals without a value -/

/-- Behind some units, the text has a backslash in front of a character that makes no escape. -/
def UnknownEscape (quote : Char) (inner : List Char) : Prop :=
  ∃ before ∈ (unitIn quote)∗, ∃ mark after, inner = before ++ '\\' :: mark :: after ∧
    mark ∉ ['n', 't', '"', '\'', '\x60', '\\']

theorem UnknownEscape.append {unit : List Char} (hunit : unit ∈ unitIn quote)
    (h : UnknownEscape quote inner) : UnknownEscape quote (unit ++ inner) := by
  obtain ⟨before, hbefore, mark, after, rfl, hmark⟩ := h
  have happend : unit ++ before ∈ (unitIn quote)∗ :=
    mem_kstar_iff.mpr (.inr ⟨unit, hunit, before, hbefore, rfl⟩)
  exact ⟨unit ++ before, happend, mark, after, (List.append_assoc ..).symm, hmark⟩

/-- Units without a value have an unknown escape, and a unit with a value stands for one
character. -/
theorem unescape_unit {unit : List Char} (hunit : unit ∈ unitIn quote) (rest : List Char) :
    UnknownEscape quote (unit ++ rest) ∨
      ∃ c, unescape (unit ++ rest) = (unescape rest).map (c :: ·) := by
  rcases hunit with ⟨c, ⟨-, hb⟩, rfl⟩ | hescape
  · exact .inr ⟨c, unescape_cons_of_ne hb⟩
  · obtain ⟨_, ⟨_, rfl, rfl⟩, _, ⟨mark, -, rfl⟩, rfl⟩ := Language.mem_mul.mp hescape
    by_cases hmark : mark ∈ ['n', 't', '"', '\'', '\x60', '\\']
    · simp only [List.mem_cons, List.not_mem_nil, or_false] at hmark
      rcases hmark with rfl | rfl | rfl | rfl | rfl | rfl <;> exact .inr ⟨_, rfl⟩
    · exact .inl ⟨[], Language.nil_mem_kstar _, mark, rest, rfl, hmark⟩

theorem unknownEscape_of_unescape (hunits : inner ∈ (unitIn quote)∗)
    (h : unescape inner = none) : UnknownEscape quote inner := by
  obtain ⟨units, rfl, hparts⟩ := Language.mem_kstar.mp hunits
  clear hunits
  induction units with
  | nil => cases h
  | cons unit units ih =>
    obtain ⟨hunit, hparts⟩ := List.forall_mem_cons.mp hparts
    rw [List.flatten_cons] at h ⊢
    rcases unescape_unit hunit units.flatten with hunknown | ⟨c, hvalue⟩
    · exact hunknown
    · rw [hvalue, Option.map_eq_none_iff] at h
      exact (ih hparts h).append hunit

/-- A literal that has no value: a text or a character with an unknown escape, or an integer out of
range. -/
inductive Rejected : List Char → LexFault → Prop
  | escape {quote : Char} {inner : List Char} :
    quote ∈ ['"', '\x60', '\''] → UnknownEscape quote inner →
      Rejected (quote :: (inner ++ [quote])) .unexpectedCharacter
  | range {word : List Char} :
    word ∈ Rule.int.language → 2 ^ 63 - 1 < digitsValue (word.takeWhile Char.isDigit) →
      Rejected word .integerOutOfRange

theorem withoutQuotes_append (quote : Char) (inner : List Char) :
    withoutQuotes (quote :: (inner ++ [quote])) = inner := by
  unfold withoutQuotes
  rw [List.drop_succ_cons, List.drop_zero, List.dropLast_concat]

theorem rejected_of_token (hmem : rule ∈ Rule.all) (hword : word ∈ rule.language)
    (h : rule.token word = .error fault) : Rejected word fault := by
  cases rule with
  | mark | float | name => cases h
  | int =>
    simp only [Rule.token] at h
    split at h
    · cases h
    · next hvalue =>
      cases h
      exact .range hword (Nat.lt_of_not_le hvalue)
  | text quote =>
    obtain ⟨_, ⟨quote, rfl, rfl⟩, _, hinner, rfl⟩ := Language.mem_mul.mp hword
    obtain ⟨inner, hunits, _, ⟨_, rfl, rfl⟩, rfl⟩ := Language.mem_mul.mp hinner
    simp only [Rule.token, List.singleton_append, withoutQuotes_append] at h
    split at h
    · cases h
    · next hvalue =>
      cases h
      refine .escape ?_ (unknownEscape_of_unescape hunits hvalue)
      rcases quote_of_mem_all hmem with rfl | rfl <;> decide
  | char =>
    obtain ⟨_, ⟨_, rfl, rfl⟩, _, hinner, rfl⟩ := Language.mem_mul.mp hword
    obtain ⟨inner, hunit, _, ⟨_, rfl, rfl⟩, rfl⟩ := Language.mem_mul.mp hinner
    simp only [Rule.token, List.singleton_append, withoutQuotes_append] at h
    split at h
    · cases h
    · next hvalue =>
      cases h
      refine .escape (by decide) ?_
      rcases unescape_unit hunit [] with hunknown | ⟨c, hc⟩
      · rwa [List.append_nil] at hunknown
      · rw [List.append_nil] at hc
        exact absurd hc (hvalue c)

/-! ## Tokens and errors -/

/-- A piece stands in front of the rest of the source. -/
structure Piece.CutFrom (source : List Char) (piece : Piece) (before after : List Char) : Prop where
  ne_nil : piece.text ≠ []
  source_eq : source = before ++ (piece.text ++ after)
  span_eq : piece.span = ⟨byteLength before, byteLength (before ++ piece.text)⟩
  firstPiece_eq : firstPiece (piece.text ++ after) = (piece.text.length, piece.content)

theorem exists_cutFrom {source : List Char} {piece : Piece} (h : piece ∈ pieces 0 source) :
    ∃ before after, piece.CutFrom source before after := by
  obtain ⟨read, more, hpieces⟩ := List.append_of_mem h
  obtain ⟨before, c, word, after, rfl, htext, -, hspan, hfirst, -, -⟩ :=
    exists_cut_of_pieces_eq hpieces
  rw [Nat.zero_add, Nat.zero_add, ← htext] at hspan
  rw [← htext] at hfirst
  have hne : piece.text ≠ [] := by
    rw [htext]
    exact List.cons_ne_nil c word
  exact ⟨before, after, hne, by rw [htext], hspan, hfirst⟩

variable {token : Token} {after : List Char}

theorem longestRule?_of_firstPiece
    (h : firstPiece (word ++ after) = (word.length, .ok token)) :
    ∃ rule, longestRule? Rule.all (word ++ after) = some (rule, word.length) ∧
      rule.token word = .ok token := by
  unfold firstPiece at h
  split at h
  · next rule n hrule =>
    obtain ⟨rfl, hcontent⟩ := Prod.mk.inj h
    rw [List.take_left] at hcontent
    exact ⟨rule, hrule, hcontent⟩
  · cases (Prod.mk.inj h).2

theorem munches_of_token (h : firstPiece (word ++ after) = (word.length, .ok token)) :
    IsLongestWord word (word ++ after) ∧
      ∀ rule ∈ Rule.all, word ∈ rule.language →
        (rule = .name → ∀ keyword : Mark, keyword.text.toList ≠ word) →
        rule.token word = .ok token := by
  obtain ⟨rule, hrule, htoken⟩ := longestRule?_of_firstPiece h
  have hword := isLongestWord_of_longestRule? hrule
  rw [List.take_left] at hword
  refine ⟨hword, fun other hmem hother hname => ?_⟩
  rw [token_of_longestRule? hrule hmem (by rwa [List.take_left]) (by rwa [List.take_left]), htoken]

theorem munches_of_error (h : firstPiece (word ++ after) = (word.length, .error fault)) :
    NoWord (word ++ after) ∧ fault = .unexpectedCharacter ∨
      IsLongestWord word (word ++ after) ∧ Rejected word fault := by
  unfold firstPiece at h
  split at h
  · next rule n hrule =>
    obtain ⟨rfl, hcontent⟩ := Prod.mk.inj h
    have hlongest := isLongestWord_of_longestRule? hrule
    have hword := take_mem_of_longestRule? hrule
    rw [List.take_left] at hcontent hlongest hword
    exact .inr ⟨hlongest, rejected_of_token (mem_of_longestRule? hrule) hword hcontent⟩
  · next hrule =>
    have hfault := Except.error.inj (Prod.mk.inj h).2
    exact .inl ⟨noWord_of_longestRule? hrule, hfault.symm⟩

/-- Every token is the longest beginning of the rest of the source in the language of any rule, and
it is the token of that word, a keyword rather than a name. An error is a place where no rule has a
beginning of the rest, or the longest one, which has an unknown escape or is out of range. -/
theorem lex_munches (source : String) :
    (∀ lexeme ∈ (lex source).tokens, ∃ before word after,
      source.toList = before ++ (word ++ after) ∧
      lexeme.span = ⟨byteLength before, byteLength (before ++ word)⟩ ∧
      IsLongestWord word (word ++ after) ∧
      ∀ rule ∈ Rule.all, word ∈ rule.language →
        (rule = .name → ∀ keyword : Mark, keyword.text.toList ≠ word) →
        rule.token word = .ok lexeme.token) ∧
    ∀ error ∈ (lex source).errors, ∃ before word after,
      source.toList = before ++ (word ++ after) ∧
      error.span = ⟨byteLength before, byteLength (before ++ word)⟩ ∧
      (NoWord (word ++ after) ∧ error.fault = .unexpectedCharacter ∨
        IsLongestWord word (word ++ after) ∧ Rejected word error.fault) := by
  constructor
  · intro lexeme hlexeme
    obtain ⟨piece, hpiece, hsome⟩ := List.mem_filterMap.mp hlexeme
    obtain ⟨htoken, hspan⟩ := Piece.lexeme?_eq_some_iff.mp hsome
    obtain ⟨before, after, hcut⟩ := exists_cutFrom hpiece
    have hfirst := hcut.firstPiece_eq
    rw [htoken] at hfirst
    exact ⟨before, piece.text, after, hcut.source_eq, hspan ▸ hcut.span_eq, munches_of_token hfirst⟩
  · intro error herror
    obtain ⟨piece, hpiece, hsome⟩ := List.mem_filterMap.mp herror
    obtain ⟨hfault, hspan, -⟩ := Piece.error?_eq_some_iff.mp hsome
    obtain ⟨before, after, hcut⟩ := exists_cutFrom hpiece
    have hfirst := hcut.firstPiece_eq
    rw [hfault] at hfirst
    exact ⟨before, piece.text, after, hcut.source_eq, hspan ▸ hcut.span_eq, munches_of_error hfirst⟩

end BindingPlan
