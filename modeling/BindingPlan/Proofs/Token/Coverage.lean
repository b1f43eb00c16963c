import BindingPlan.Proofs.Token.Munch
import BindingPlan.Proofs.Tree.Spans
import Mathlib.Data.List.Pairwise

/-!
# Coverage of the source

The pieces of a source, tokens and errors, cover it but for the blanks between them: no byte belongs
to two pieces, and a byte that belongs to none is a blank. A token has no blank inside, unless it is
a text or a character between its quote marks.

Main results:

* `in_piece_or_blank`: every byte belongs to a piece or is a blank.
* `lex_covers`: the tokens and errors of a source cover it.
-/

namespace BindingPlan

open scoped Computability

variable {text word before after : List Char} {c : Char} {position byte : Nat} {rule : Rule}
  {piece : Piece} {l m : Language Char} {p q : Char → Prop}

/-! ## Bytes -/

theorem utf8Size_of_isBlank (h : isBlank c = true) : c.utf8Size = 1 := by
  simp only [isBlank, Bool.or_eq_true, beq_iff_eq] at h
  rcases h with ((rfl | rfl) | rfl) | rfl <;> rfl

/-- Every byte belongs to a piece or is a blank. -/
theorem in_piece_or_blank (hstart : position ≤ byte) (hstop : byte < position + byteLength text) :
    (∃ piece ∈ pieces position text, piece.span.start ≤ byte ∧ byte < piece.span.stop) ∨
      ∃ before c after, text = before ++ c :: after ∧ position + byteLength before = byte ∧
        isBlank c = true := by
  fun_induction pieces position text with
  | case1 =>
    rw [byteLength_nil, Nat.add_zero] at hstop
    exact absurd hstart (Nat.not_le_of_lt hstop)
  | case2 position c rest hblank ih =>
    have hsize := utf8Size_of_isBlank hblank
    rw [byteLength_cons, ← Nat.add_assoc] at hstop
    rcases Nat.eq_or_lt_of_le hstart with rfl | hlt
    · exact .inr ⟨[], c, rest, rfl, rfl, hblank⟩
    · rcases ih (by omega) hstop with hpiece | ⟨before, d, after, rfl, rfl, hd⟩
      · exact .inl hpiece
      · refine .inr ⟨c :: before, d, after, rfl, ?_, hd⟩
        rw [byteLength_cons, Nat.add_assoc]
  | case3 position c rest hblank length content hfirst word stop ih =>
    have happend : c :: rest = word ++ rest.drop (length - 1) := by
      rw [List.cons_append, List.take_append_drop]
    rw [happend, byteLength_append, ← Nat.add_assoc] at hstop
    by_cases hlt : byte < stop
    · exact .inl ⟨_, List.mem_cons_self, hstart, hlt⟩
    · rcases ih (Nat.le_of_not_lt hlt) hstop with
        ⟨piece, hpiece, hspan⟩ | ⟨before, d, after, hrest, rfl, hd⟩
      · exact .inl ⟨piece, List.mem_cons_of_mem _ hpiece, hspan⟩
      · refine .inr ⟨word ++ before, d, after, ?_, ?_, hd⟩
        · rw [happend, hrest, List.append_assoc]
        · rw [byteLength_append, ← Nat.add_assoc]

/-- Of two beginnings of a text, the one with fewer bytes is a beginning of the other one. -/
theorem prefix_of_byteLength_le {first second : List Char} (hfirst : first <+: text)
    (hsecond : second <+: text) (hle : byteLength first ≤ byteLength second) :
    first <+: second := by
  rcases List.prefix_or_prefix_of_prefix hfirst hsecond with h | ⟨more, rfl⟩
  · exact h
  · rw [byteLength_append] at hle
    cases more with
    | nil => rw [List.append_nil]
    | cons c more =>
      have := c.utf8Size_pos
      rw [byteLength_cons] at hle
      omega

theorem byteLength_pos (h : text ≠ []) : 0 < byteLength text := by
  obtain ⟨c, rest, rfl⟩ := List.exists_cons_of_ne_nil h
  exact Nat.lt_of_lt_of_le c.utf8Size_pos (Nat.le_add_right _ _)

/-- A character that starts between the ends of a word is one of its characters. -/
theorem exists_split_of_bytes {front behind : List Char}
    (heq : front ++ (word ++ behind) = before ++ c :: after)
    (hstart : byteLength front ≤ byteLength before)
    (hstop : byteLength before < byteLength (front ++ word)) :
    ∃ x y, before = front ++ x ∧ word = x ++ c :: y := by
  obtain ⟨x, rfl⟩ : front <+: before :=
    prefix_of_byteLength_le ⟨_, heq⟩ (List.prefix_append _ _) hstart
  rw [List.append_assoc, List.append_cancel_left_eq] at heq
  rw [byteLength_append, byteLength_append, Nat.add_lt_add_iff_left] at hstop
  obtain ⟨y, rfl⟩ : x <+: word :=
    prefix_of_byteLength_le (List.prefix_append x (c :: after)) ⟨behind, heq⟩ (Nat.le_of_lt hstop)
  rw [List.append_assoc, List.append_cancel_left_eq] at heq
  cases y with
  | nil =>
    rw [List.append_nil] at hstop
    exact absurd hstop (Nat.lt_irrefl _)
  | cons d y =>
    cases heq
    exact ⟨x, y, rfl, rfl⟩

/-! ## Blanks in tokens -/

theorem lt_of_isNameRest (h : isNameRest c = true) : ' ' < c := by
  by_contra hle
  delta isNameRest Char.isAlphanum Char.isAlpha Char.isUpper Char.isLower Char.isDigit at h
  simp only [Bool.or_eq_true, Bool.and_eq_true, decide_eq_true_eq, UInt32.le_iff_toNat_le,
    ge_iff_le, beq_iff_eq] at h
  rw [Char.lt_def, UInt32.lt_iff_toNat_lt] at hle
  have : ' '.val.toNat = 32 := rfl
  have : '0'.val.toNat = 48 := rfl
  have : 'A'.val.toNat = 65 := rfl
  have : 'a'.val.toNat = 97 := rfl
  rcases h with ((h | h) | rfl) | rfl
  · omega
  · omega
  · exact hle (by decide)
  · exact hle (by decide)

/-- All characters of all words have the property. -/
def Consists (l : Language Char) (p : Char → Prop) : Prop :=
  ∀ word ∈ l, ∀ c ∈ word, p c

theorem consists_oneOf (h : ∀ c, p c → q c) : Consists (oneOf p) q := by
  rintro _ ⟨c, hc, rfl⟩ d hd
  rw [List.mem_singleton.mp hd]
  exact h c hc

theorem consists_kstar_oneOf (h : ∀ c, p c → q c) : Consists (oneOf p)∗ q :=
  fun _ hword c hc => h c (mem_kstar_oneOf.mp hword c hc)

theorem Consists.mul (hl : Consists l p) (hm : Consists m p) : Consists (l * m) p := by
  intro word hword c hc
  obtain ⟨a, ha, b, hb, rfl⟩ := Language.mem_mul.mp hword
  exact (List.mem_append.mp hc).elim (hl a ha c) (hm b hb c)

theorem Consists.maybe (h : Consists l p) : Consists (maybe l) p := by
  rintro word (hword | rfl) c hc
  · exact h word hword c hc
  · cases hc

theorem consists_rowOf (h : ∀ c, p c → q c) : Consists (rowOf p) q :=
  (consists_oneOf h).mul (consists_kstar_oneOf h)

/-- A token that is no literal between quote marks has no blanks. -/
theorem Rule.consists_language (rule : Rule) :
    (∃ quote, rule = .text quote) ∨ rule = .char ∨ Consists rule.language (' ' < ·) := by
  have hdigits : Consists (rowOf (·.isDigit)) (' ' < ·) :=
    consists_rowOf fun _ hc => lt_of_isNameRest (isNameRest_of_isDigit hc)
  have hletters (letters : List Char) (h : ∀ c ∈ letters, ' ' < c) :
      Consists (oneOf (· ∈ letters)) (' ' < ·) := consists_oneOf h
  cases rule with
  | text quote => exact .inl ⟨quote, rfl⟩
  | char => exact .inr (.inl rfl)
  | mark m =>
    refine .inr (.inr ?_)
    rintro _ rfl
    cases m <;> simp [Mark.text]
  | int => exact .inr (.inr (hdigits.mul (hletters _ (by simp)).maybe))
  | float =>
    have hpoint : Consists (oneOf (· = '.')) (' ' < ·) := consists_oneOf (by rintro _ rfl; decide)
    have hsign := (hletters ['+', '-'] (by simp)).maybe
    have hexponent := ((hletters ['e', 'E'] (by simp)).mul (hsign.mul hdigits)).maybe
    have hsuffix := (hletters ['f', 'F', 'd', 'D'] (by simp)).maybe
    exact .inr (.inr (hdigits.mul (hpoint.mul (hdigits.mul (hexponent.mul hsuffix)))))
  | name =>
    refine .inr (.inr ((consists_oneOf fun c hc => ?_).mul (consists_kstar_oneOf fun c hc => ?_)))
    · exact lt_of_isNameRest (isNameRest_of_isNameStart hc)
    · exact lt_of_isNameRest hc

/-- Literals between quote marks have their blanks inside. -/
theorem quoted_of_blank {x y : List Char} {m : Language Char} {quote : Char} (hquote : ' ' < quote)
    (hword : x ++ c :: y ∈ oneOf (· = quote) * (m * oneOf (· = quote))) (hc : c ≤ ' ') :
    x ≠ [] ∧ y ≠ [] := by
  obtain ⟨_, ⟨_, rfl, rfl⟩, _, hinner, heq⟩ := Language.mem_mul.mp hword
  obtain ⟨inner, -, _, ⟨quote, rfl, rfl⟩, rfl⟩ := Language.mem_mul.mp hinner
  have hne : c ≠ quote := by
    rintro rfl
    exact Char.not_lt.mpr hc hquote
  constructor
  · rintro rfl
    exact hne (List.cons.inj heq).1.symm
  · rintro rfl
    rw [← List.append_assoc] at heq
    exact hne (List.cons.inj (List.append_inj' heq rfl).2).1.symm

/-- A blank of a token stands between the quote marks of a text or a character. -/
theorem quoted_of_blank_in_token {source : String} {lexeme : Lexeme}
    (hlexeme : lexeme ∈ (lex source).tokens) (hsource : source.toList = before ++ c :: after)
    (hc : c ≤ ' ') (hstart : lexeme.span.start ≤ byteLength before)
    (hstop : byteLength before < lexeme.span.stop) :
    ((∃ value, lexeme.token = .text value) ∨ ∃ value, lexeme.token = .char value) ∧
      lexeme.span.start < byteLength before ∧ byteLength (before ++ [c]) < lexeme.span.stop := by
  obtain ⟨piece, hpiece, hsome⟩ := List.mem_filterMap.mp hlexeme
  obtain ⟨htoken, hspan⟩ := Piece.lexeme?_eq_some_iff.mp hsome
  obtain ⟨front, behind, hcut⟩ := exists_cutFrom hpiece
  have hfirst := hcut.firstPiece_eq
  rw [htoken] at hfirst
  obtain ⟨rule, hrule, hvalue⟩ := longestRule?_of_firstPiece hfirst
  have hword := take_mem_of_longestRule? hrule
  rw [List.take_left] at hword
  rw [← hspan, hcut.span_eq] at hstart hstop ⊢
  obtain ⟨x, y, rfl, hx⟩ := exists_split_of_bytes (hcut.source_eq.symm.trans hsource) hstart hstop
  have hinside : x ≠ [] → y ≠ [] → byteLength front < byteLength (front ++ x) ∧
      byteLength (front ++ x ++ [c]) < byteLength (front ++ piece.text) := by
    intro hx' hy'
    have hx' := byteLength_pos hx'
    have hy' := byteLength_pos hy'
    simp only [hx, byteLength_append, byteLength_cons, byteLength_nil]
    omega
  rw [hx] at hword
  rcases rule.consists_language with ⟨quote, rfl⟩ | rfl | hconsists
  · have hquote : ' ' < quote := by
      rcases quote_of_mem_all (mem_of_longestRule? hrule) with rfl | rfl <;> decide
    obtain ⟨hx', hy'⟩ := quoted_of_blank hquote hword hc
    refine ⟨.inl ?_, hinside hx' hy'⟩
    simp only [Rule.token] at hvalue
    split at hvalue
    · exact ⟨_, (Except.ok.inj hvalue).symm⟩
    · cases hvalue
  · obtain ⟨hx', hy'⟩ := quoted_of_blank (by decide) hword hc
    refine ⟨.inr ?_, hinside hx' hy'⟩
    simp only [Rule.token] at hvalue
    split at hvalue
    · next value _ => exact ⟨value, (Except.ok.inj hvalue).symm⟩
    · cases hvalue
  · have hlt := hconsists _ hword c (List.mem_append_right x List.mem_cons_self)
    exact absurd hlt (Char.not_lt.mpr hc)

/-! ## Coverage -/

/-- The spans have no byte in common. -/
def Span.Disjoint (span other : Span) : Prop :=
  span.stop ≤ other.start ∨ other.stop ≤ span.start

theorem pairwise_errors (source : String) :
    (lex source).errors.Pairwise fun error next => error.span.stop ≤ next.span.start := by
  refine (pairwise_pieces 0 source.toList).filterMap _ fun piece next hle e he f hf => ?_
  rw [Piece.span_of_error? he, Piece.span_of_error? hf]
  exact hle

/-- The spans of all pieces, tokens first. -/
def pieceSpans (source : String) : List Span :=
  (lex source).tokens.map Lexeme.span ++ (lex source).errors.map LexError.span

theorem mem_pieceSpans {source : String} {span : Span} :
    span ∈ pieceSpans source ↔ ∃ piece ∈ pieces 0 source.toList, piece.span = span := by
  unfold pieceSpans lex
  simp only [List.mem_append, List.mem_map, List.mem_filterMap]
  constructor
  · rintro (⟨lexeme, ⟨piece, hpiece, hsome⟩, rfl⟩ | ⟨error, ⟨piece, hpiece, hsome⟩, rfl⟩)
    · exact ⟨piece, hpiece, (Piece.span_of_lexeme? hsome).symm⟩
    · exact ⟨piece, hpiece, (Piece.span_of_error? hsome).symm⟩
  · rintro ⟨piece, hpiece, rfl⟩
    cases hcontent : piece.content with
    | ok token =>
      refine .inl ⟨⟨token, piece.span⟩, ⟨piece, hpiece, ?_⟩, rfl⟩
      exact Piece.lexeme?_eq_some_iff.mpr ⟨hcontent, rfl⟩
    | error fault =>
      refine .inr ⟨⟨fault, piece.span, String.ofList piece.text⟩, ⟨piece, hpiece, ?_⟩, rfl⟩
      exact Piece.error?_eq_some_iff.mpr ⟨hcontent, rfl, rfl⟩

theorem pairwise_pieceSpans (source : String) : (pieceSpans source).Pairwise Span.Disjoint := by
  have hpieces : (pieces 0 source.toList).Pairwise fun piece next =>
      piece.span.Disjoint next.span := (pairwise_pieces 0 source.toList).imp .inl
  refine List.pairwise_append.mpr ⟨?_, ?_, ?_⟩
  · exact List.pairwise_map.mpr ((lexemesIn_lex source).ordered.imp .inl)
  · exact List.pairwise_map.mpr ((pairwise_errors source).imp .inl)
  · intro span hspan other hother
    obtain ⟨lexeme, hlexeme, rfl⟩ := List.mem_map.mp hspan
    obtain ⟨error, herror, rfl⟩ := List.mem_map.mp hother
    obtain ⟨piece, hpiece, hsome⟩ := List.mem_filterMap.mp hlexeme
    obtain ⟨next, hnext, hsome'⟩ := List.mem_filterMap.mp herror
    rw [Piece.span_of_lexeme? hsome, Piece.span_of_error? hsome']
    have : Std.Symm fun piece next : Piece => piece.span.Disjoint next.span :=
      ⟨fun _ _ h => Or.symm h⟩
    refine hpieces.forall hpiece hnext ?_
    -- a piece is a token or an error, not both
    rintro rfl
    cases (Piece.lexeme?_eq_some_iff.mp hsome).1.symm.trans (Piece.error?_eq_some_iff.mp hsome').1

theorem start_lt_stop_of_mem_pieces {source : List Char} (h : piece ∈ pieces 0 source) :
    piece.span.start < piece.span.stop := by
  obtain ⟨before, after, hcut⟩ := exists_cutFrom h
  rw [hcut.span_eq, byteLength_append]
  exact Nat.lt_add_of_pos_right (byteLength_pos hcut.ne_nil)

/-- The tokens and errors of a source have at least one character each, lie in it one behind the
other, and cover all of it but blanks. A token has a blank only inside a text or a character. -/
theorem lex_covers (source : String) :
    (∀ span ∈ pieceSpans source, span.Within source.toList ∧ span.start < span.stop) ∧
    (pieceSpans source).Pairwise Span.Disjoint ∧
    ((lex source).tokens.Pairwise fun lexeme next => lexeme.span.stop ≤ next.span.start) ∧
    ((lex source).errors.Pairwise fun error next => error.span.stop ≤ next.span.start) ∧
    (∀ byte < byteLength source.toList,
      (∀ span ∈ pieceSpans source, ¬ (span.start ≤ byte ∧ byte < span.stop)) →
      ∃ before c after, source.toList = before ++ c :: after ∧ byteLength before = byte ∧
        c ∈ [' ', '\t', '\r', '\n']) ∧
    ∀ lexeme ∈ (lex source).tokens, ∀ before c after, source.toList = before ++ c :: after →
      c ≤ ' ' → lexeme.span.start ≤ byteLength before → byteLength before < lexeme.span.stop →
      ((∃ value, lexeme.token = .text value) ∨ ∃ value, lexeme.token = .char value) ∧
        lexeme.span.start < byteLength before ∧
        byteLength (before ++ [c]) < lexeme.span.stop := by
  refine ⟨fun span hspan => ?_, pairwise_pieceSpans source, (lexemesIn_lex source).ordered,
    pairwise_errors source, fun byte hbyte houtside => ?_, ?_⟩
  · obtain ⟨piece, hpiece, rfl⟩ := mem_pieceSpans.mp hspan
    exact ⟨within_of_mem_pieces hpiece [] rfl rfl, start_lt_stop_of_mem_pieces hpiece⟩
  · rcases in_piece_or_blank (Nat.zero_le byte) (by rwa [Nat.zero_add]) with
      ⟨piece, hpiece, hinside⟩ | ⟨before, c, after, hsource, hposition, hblank⟩
    · exact absurd hinside (houtside piece.span (mem_pieceSpans.mpr ⟨piece, hpiece, rfl⟩))
    · refine ⟨before, c, after, hsource, by rwa [Nat.zero_add] at hposition, ?_⟩
      simp only [isBlank, Bool.or_eq_true, beq_iff_eq] at hblank
      rcases hblank with ((rfl | rfl) | rfl) | rfl <;> decide
  · intro lexeme hlexeme before c after hsource hc hstart hstop
    exact quoted_of_blank_in_token hlexeme hsource hc hstart hstop

end BindingPlan
