import BindingPlan.Proofs.Token.Munch
import BindingPlan.Proofs.Tree.MapSpans
import BindingPlan.Proofs.Tree.Spans

/-!
# Slices of a source

Tokens are cut off locally: where a text ends earlier behind a token, the token is still cut off.
So the part of a source from the start of one token to the end of another has the tokens in between,
moved to its own start.

Main results:

* `firstPiece_of_shorter`: a token in front of a text that ends earlier.
* `pieces_move`: the pieces of a text that starts at another position.
* `lex_slice`: the tokens of a slice.
-/

namespace BindingPlan

variable {text word after shorter : List Char} {c : Char} {n position : Nat} {rule : Rule}
  {token : Token} {piece : Piece} {read own more : List Piece}

/-! ## Tokens in front of less -/

/-- What a rule accepts of a beginning, it accepts of the whole text, or more. -/
theorem Rule.longest?_mono (hmem : rule ∈ Rule.all) (hfront : shorter <+: text)
    (h : rule.longest? shorter = some n) : ∃ m, rule.longest? text = some m ∧ n ≤ m := by
  obtain ⟨hle, hword⟩ := Rule.take_mem_language hmem h
  obtain ⟨m, hm, hlength⟩ :=
    Rule.exists_le_longest? hmem hword ((List.take_prefix n shorter).trans hfront)
  rw [List.length_take, Nat.min_eq_left hle] at hlength
  exact ⟨m, hm, hlength⟩

/-- The rule of a word is chosen in front of another text as well, if no rule accepts more there. -/
theorem longestRule?_of_le
    (h : longestRule? Rule.all (word ++ after) = some (rule, word.length))
    (hmore : ∀ other ∈ Rule.all, ∀ m, other.longest? (word ++ text) = some m →
      ∃ k, other.longest? (word ++ after) = some k ∧ m ≤ k) :
    longestRule? Rule.all (word ++ text) = some (rule, word.length) := by
  have hmem := mem_of_longestRule? h
  have hword := take_mem_of_longestRule? h
  rw [List.take_left] at hword
  obtain ⟨before, behind, hall, hlongest, hbefore⟩ := longestRule?_eq_some h
  have hle := le_of_longestRule? h
  have hsame : rule.longest? (word ++ text) = some word.length := by
    obtain ⟨m, hm, hlength⟩ :=
      Rule.exists_le_longest? hmem hword (List.prefix_append word text)
    obtain ⟨k, hk, hmk⟩ := hmore rule hmem m hm
    rw [hm, Nat.le_antisymm hlength (Nat.le_trans hmk (hle rule hmem k hk))]
  rw [hall] at hmem hle hmore ⊢
  refine longestRule?_append_cons hsame (fun other hother m hm => ?_) fun other hother m hm => ?_
  · obtain ⟨k, hk, hmk⟩ := hmore other (List.mem_append_left _ hother) m hm
    exact Nat.lt_of_le_of_lt hmk (hbefore other hother k hk)
  · have hother : other ∈ before ++ rule :: behind :=
      List.mem_append_right before (List.mem_cons_of_mem rule hother)
    obtain ⟨k, hk, hmk⟩ := hmore other hother m hm
    exact Nat.le_trans hmk (hle other hother k hk)

theorem longestRule?_of_shorter
    (h : longestRule? Rule.all (word ++ after) = some (rule, word.length))
    (hfront : shorter <+: after) :
    longestRule? Rule.all (word ++ shorter) = some (rule, word.length) :=
  longestRule?_of_le h fun _ hother _ hm =>
    Rule.longest?_mono hother ((List.prefix_append_right_inj word).mpr hfront) hm

/-- A token in front of a text that ends earlier. -/
theorem firstPiece_of_shorter (h : firstPiece (word ++ after) = (word.length, .ok token))
    (hfront : shorter <+: after) :
    firstPiece (word ++ shorter) = (word.length, .ok token) := by
  obtain ⟨rule, hrule, htoken⟩ := longestRule?_of_firstPiece h
  rw [firstPiece_append (longestRule?_of_shorter hrule hfront), htoken]

/-! ## Pieces of a slice -/

theorem pieces_blanks {blanks : List Char} (h : ∀ b ∈ blanks, isBlank b = true) :
    pieces position (blanks ++ text) = pieces (position + byteLength blanks) text := by
  induction blanks generalizing position with
  | nil => rfl
  | cons b blanks ih =>
    obtain ⟨hb, hblanks⟩ := List.forall_mem_cons.mp h
    rw [List.cons_append, pieces, if_pos hb, ih hblanks, byteLength_cons, Nat.add_assoc]

/-- A token is cut off in front of a text that ends earlier. -/
theorem pieces_of_shorter
    (hfirst : firstPiece (c :: word ++ after) = ((c :: word).length, .ok token))
    (hblank : isBlank c = false) (hfront : shorter <+: after) (position : Nat) :
    pieces position (c :: word ++ shorter) =
      ⟨⟨position, position + byteLength (c :: word)⟩, c :: word, .ok token⟩ ::
        pieces (position + byteLength (c :: word)) shorter :=
  pieces_append (firstPiece_of_shorter hfirst hfront) hblank

/-- Pieces one behind the other that are all tokens are the pieces of the text from the start of the
first to the end of the last. -/
theorem exists_slice_of_pieces (h : pieces position text = read ++ piece :: (own ++ more))
    (hok : ∀ p ∈ piece :: own, ∃ token, p.content = .ok token) :
    ∃ before slice after, text = before ++ (slice ++ after) ∧
      (read = [] → ∀ b ∈ before, isBlank b = true) ∧
      piece.span.start = position + byteLength before ∧
      (∀ last ∈ (piece :: own).getLast?,
        last.span.stop = position + byteLength (before ++ slice)) ∧
      pieces (position + byteLength before) slice = piece :: own := by
  induction own generalizing position text read piece with
  | nil =>
    obtain ⟨before, c, word, after, rfl, htext, hblank, hspan, hfirst, -, hblanks⟩ :=
      exists_cut_of_pieces_eq h
    obtain ⟨token, htoken⟩ := hok piece List.mem_cons_self
    obtain ⟨span, _, content⟩ := piece
    subst htext hspan htoken
    refine ⟨before, c :: word, after, rfl, hblanks, rfl, ?_, ?_⟩
    · rintro last ⟨⟩
      rfl
    · have hpieces := pieces_of_shorter hfirst hblank List.nil_prefix (position + byteLength before)
      rw [List.append_nil, pieces] at hpieces
      rw [hpieces, byteLength_append, Nat.add_assoc]
  | cons next own ih =>
    obtain ⟨before, c, word, after, rfl, htext, hblank, hspan, hfirst, hmore, hblanks⟩ :=
      exists_cut_of_pieces_eq h
    obtain ⟨token, htoken⟩ := hok piece List.mem_cons_self
    obtain ⟨span, _, content⟩ := piece
    subst htext hspan htoken
    -- the other pieces are those of a slice behind some blanks
    obtain ⟨blanks, slice, behind, rfl, hblank', -, hstop, hslice⟩ :=
      ih ((List.nil_append _).trans hmore).symm (List.forall_mem_cons.mp hok).2
    refine ⟨before, c :: word ++ (blanks ++ slice), behind, ?_, hblanks, rfl, ?_, ?_⟩
    · simp only [List.append_assoc]
    · intro last hlast
      rw [hstop last hlast]
      simp only [byteLength_append, Nat.add_assoc]
    · have hfront : blanks ++ slice <+: blanks ++ (slice ++ behind) :=
        (List.prefix_append_right_inj blanks).mpr (List.prefix_append slice behind)
      rw [pieces_of_shorter hfirst hblank hfront, pieces_blanks (hblank' rfl), ← hslice]
      simp only [byteLength_append, Nat.add_assoc]

/-! ## Moved pieces -/

/-- The span in a text that has a number of bytes more in front. -/
def Span.move (distance : Nat) (span : Span) : Span :=
  ⟨distance + span.start, distance + span.stop⟩

theorem Span.move_to (distance : Nat) (first last : Span) :
    (first.to last).move distance = (first.move distance).to (last.move distance) :=
  rfl

def Piece.move (distance : Nat) (piece : Piece) : Piece :=
  { piece with span := piece.span.move distance }

/-- The pieces of a text that starts at another position. -/
theorem pieces_move (distance position : Nat) (text : List Char) :
    pieces (distance + position) text = (pieces position text).map (Piece.move distance) := by
  fun_induction pieces position text with
  | case1 => rw [pieces, List.map_nil]
  | case2 position c rest hblank ih => rw [pieces, if_pos hblank, ← ih, Nat.add_assoc]
  | case3 position c rest hblank length content hfirst word stop ih =>
    rw [pieces, if_neg hblank, List.map_cons, ← ih]
    simp only [hfirst, Piece.move, Span.move, stop, word, Nat.add_assoc]

theorem Piece.lexeme?_move (distance : Nat) (piece : Piece) :
    (piece.move distance).lexeme? =
      piece.lexeme?.map (Lexeme.mapSpan (Span.move distance)) := by
  obtain ⟨span, text, content⟩ := piece
  cases content <;> rfl

theorem Piece.error?_eq_none_iff : piece.error? = none ↔ ∃ token, piece.content = .ok token := by
  obtain ⟨span, text, content⟩ := piece
  cases content <;> simp [error?]

/-! ## Tokens of a slice -/

theorem Span.slice?_append (before slice after : List Char) :
    Span.slice? ⟨byteLength before, byteLength (before ++ slice)⟩ (before ++ (slice ++ after)) =
      some slice := by
  unfold slice?
  simp only [splitAtByte_append, byteLength_append, Nat.add_sub_cancel_left, bind, Option.bind_some,
    pure]

theorem spans_of_contents (h : ∀ p ∈ own, ∃ token, p.content = .ok token) :
    (own.filterMap Piece.lexeme?).map Lexeme.span = own.map Piece.span := by
  induction own with
  | nil => rfl
  | cons piece own ih =>
    obtain ⟨⟨token, htoken⟩, hown⟩ := List.forall_mem_cons.mp h
    have hlexeme : piece.lexeme? = some ⟨token, piece.span⟩ :=
      Piece.lexeme?_eq_some_iff.mpr ⟨htoken, rfl⟩
    rw [List.filterMap_cons_some hlexeme, List.map_cons, List.map_cons, ih hown]

/-- In a source without errors, the part from the start of a token to the end of another one has
the tokens in between, moved to its own start. -/
theorem lex_slice {source : String} {before own after : List Lexeme} {first last : Lexeme}
    (herrors : (lex source).errors = []) (htokens : (lex source).tokens = before ++ (own ++ after))
    (hfirst : own.head? = some first) (hlast : own.getLast? = some last) :
    ∃ text, (first.span.to last.span).slice? source.toList = some text ∧
      (lex (String.ofList text)).errors = [] ∧
      (lex (String.ofList text)).tokens.map (Lexeme.mapSpan (Span.move first.span.start)) =
        own := by
  obtain ⟨read, rest, hpieces, -, hrest⟩ := List.filterMap_eq_append_iff.mp htokens
  obtain ⟨ps, more, rfl, hown, -⟩ := List.filterMap_eq_append_iff.mp hrest
  have hok : ∀ p ∈ ps, ∃ token, p.content = .ok token := fun p hp =>
    Piece.error?_eq_none_iff.mp (List.filterMap_eq_nil_iff.mp herrors p (by simp [hpieces, hp]))
  have hspans := spans_of_contents hok
  rw [hown] at hspans
  cases ps with
  | nil =>
    cases hown
    cases hfirst
  | cons piece ps =>
    obtain ⟨front, slice, behind, hsource, -, hstart, hstop, hslice⟩ :=
      exists_slice_of_pieces hpieces hok
    have hpiece : first.span = piece.span := by
      have hhead := congrArg List.head? hspans
      rw [List.head?_map, hfirst] at hhead
      exact Option.some.inj hhead
    have hend : last.span.stop = 0 + byteLength (front ++ slice) := by
      have hlast' := congrArg List.getLast? hspans
      rw [List.getLast?_map, List.getLast?_map, hlast] at hlast'
      obtain ⟨other, hother, hspan⟩ := Option.map_eq_some_iff.mp hlast'.symm
      rw [← hspan, hstop other hother]
    have hmoved : (pieces 0 slice).map (Piece.move first.span.start) = piece :: ps := by
      rw [← pieces_move, hpiece, hstart, Nat.add_zero, hslice]
    have hslice' : (lex (String.ofList slice)) =
      ⟨(pieces 0 slice).filterMap Piece.lexeme?, (pieces 0 slice).filterMap Piece.error?⟩ := by
      rw [lex, String.toList_ofList]
    refine ⟨slice, ?_, ?_, ?_⟩
    · rw [hsource, Span.to, hpiece, hstart, hend, Nat.zero_add, Nat.zero_add]
      exact Span.slice?_append front slice behind
    · rw [hslice']
      refine List.filterMap_eq_nil_iff.mpr fun p hp => Piece.error?_eq_none_iff.mpr ?_
      exact hok (p.move _) (hmoved ▸ List.mem_map_of_mem hp)
    · rw [hslice', List.map_filterMap, ← hown, ← hmoved, List.filterMap_map]
      exact congrArg (List.filterMap · _) (funext fun p => (Piece.lexeme?_move _ p).symm)

end BindingPlan
