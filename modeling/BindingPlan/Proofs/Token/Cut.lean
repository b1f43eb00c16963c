import BindingPlan.Proofs.Text.Boundary
import BindingPlan.Proofs.Token.Language
import BindingPlan.Proofs.Token.Name

/-!
# How a source is cut

A piece is some characters of the source, at least one, and the first piece of what the source goes
on with from its start. Behind the piece, the source is cut like any other text from there on.

Main results:

* `exists_cut_of_pieces_eq`: where a piece stands, and what the pieces from there on are.
* `pieces_append`: a word in front of a text that is cut behind it.
-/

namespace BindingPlan

variable {text word rest after : List Char} {c : Char} {n position : Nat} {rule other : Rule}
  {rules : List Rule} {content : Except LexFault Token} {piece : Piece} {read more : List Piece}

/-! ## The chosen rule -/

theorem longestRule?_eq_none (h : longestRule? rules text = none) :
    ∀ rule ∈ rules, rule.longest? text = none := by
  induction rules with
  | nil => exact List.forall_mem_nil _
  | cons head rules ih =>
    unfold longestRule? at h
    split at h
    · next hnone => exact List.forall_mem_cons.mpr ⟨hnone, ih h⟩
    · cases h
    · split at h <;> cases h

/-- No rule accepts more than the chosen one. -/
theorem le_of_longestRule? (h : longestRule? rules text = some (rule, n)) :
    ∀ other ∈ rules, ∀ m, other.longest? text = some m → m ≤ n := by
  induction rules generalizing rule n with
  | nil => exact List.forall_mem_nil _
  | cons head rules ih =>
    unfold longestRule? at h
    split at h
    · next hnone =>
      refine List.forall_mem_cons.mpr ⟨fun m hm => ?_, ih h⟩
      rw [hnone] at hm
      cases hm
    · next length hlength hnone =>
      cases h
      refine List.forall_mem_cons.mpr ⟨fun m hm => ?_, fun other hother m hm => ?_⟩
      · rw [hlength] at hm
        exact Nat.le_of_eq (Option.some.inj hm).symm
      · rw [longestRule?_eq_none hnone other hother] at hm
        cases hm
    · next length best longer hlength hbest =>
      have hrest := ih hbest
      split at h
      · next hlt =>
        cases h
        refine List.forall_mem_cons.mpr ⟨fun m hm => ?_, hrest⟩
        rw [hlength] at hm
        cases hm
        exact Nat.le_of_lt hlt
      · next hle =>
        cases h
        refine List.forall_mem_cons.mpr ⟨fun m hm => ?_, fun other hother m hm => ?_⟩
        · rw [hlength] at hm
          exact Nat.le_of_eq (Option.some.inj hm).symm
        · exact Nat.le_trans (hrest other hother m hm) (Nat.le_of_not_lt hle)

theorem mem_of_longestRule? (h : longestRule? rules text = some (rule, n)) : rule ∈ rules := by
  obtain ⟨before, after, rfl, -, -⟩ := longestRule?_eq_some h
  exact List.mem_append_right before List.mem_cons_self

/-! ## Contents -/

theorem Piece.lexeme?_eq_some_iff {lexeme : Lexeme} :
    piece.lexeme? = some lexeme ↔ piece.content = .ok lexeme.token ∧ piece.span = lexeme.span := by
  obtain ⟨span, text, content⟩ := piece
  obtain ⟨token, span'⟩ := lexeme
  cases content <;> simp [lexeme?]

theorem Piece.error?_eq_some_iff {error : LexError} :
    piece.error? = some error ↔ piece.content = .error error.fault ∧ piece.span = error.span ∧
      String.ofList piece.text = error.text := by
  obtain ⟨span, text, content⟩ := piece
  obtain ⟨fault, span', text'⟩ := error
  cases content <;> simp [error?]

/-! ## First pieces -/

theorem countUnits_le_length {quote : Char} (hquote : quote ≠ '\\') (text : List Char) :
    countUnits quote text ≤ text.length :=
  (longest_units hquote text).take_mem.1

theorem faultLength_bounds (c : Char) (rest : List Char) :
    0 < faultLength (c :: rest) ∧ faultLength (c :: rest) ≤ (c :: rest).length := by
  rw [faultLength, List.length_cons]
  split
  · next hquote =>
    have hne : c ≠ '\\' := by rcases hquote with rfl | rfl <;> decide
    have hunits := countUnits_le_length hne rest
    omega
  · exact ⟨Nat.one_pos, Nat.succ_le_succ (Nat.zero_le _)⟩

/-- A piece has at least one character, and it ends in the text. -/
theorem firstPiece_bounds (h : firstPiece (c :: rest) = (n, content)) :
    0 < n ∧ n ≤ (c :: rest).length := by
  unfold firstPiece at h
  split at h
  · next rule length hrule =>
    cases h
    have hmem := mem_of_longestRule? hrule
    obtain ⟨-, -, -, hlongest, -⟩ := longestRule?_eq_some hrule
    obtain ⟨hle, hword⟩ := Rule.take_mem_language hmem hlongest
    refine ⟨Nat.pos_of_ne_zero ?_, hle⟩
    rintro rfl
    exact Rule.ne_nil_of_mem_language hword List.take_zero
  · cases h
    exact faultLength_bounds c rest

/-- A word that is the first piece is cut off in front of the others. -/
theorem pieces_append (hfirst : firstPiece (c :: (word ++ after)) = (word.length + 1, content))
    (hblank : isBlank c = false) :
    pieces position (c :: (word ++ after)) =
      ⟨⟨position, position + byteLength (c :: word)⟩, c :: word, content⟩ ::
        pieces (position + byteLength (c :: word)) after := by
  rw [pieces, hblank, if_neg Bool.false_ne_true]
  simp only [hfirst, Nat.add_sub_cancel, List.take_left, List.drop_left]

/-- Where a piece stands in a text that starts at a position, and what the pieces from there on
are. -/
theorem exists_cut_of_pieces_eq (h : pieces position text = read ++ piece :: more) :
    ∃ before c word after, text = before ++ (c :: word ++ after) ∧
      piece.text = c :: word ∧ isBlank c = false ∧
      piece.span = ⟨position + byteLength before, position + byteLength (before ++ c :: word)⟩ ∧
      firstPiece (c :: word ++ after) = ((c :: word).length, piece.content) ∧
      more = pieces piece.span.stop after ∧
      (read = [] → ∀ b ∈ before, isBlank b = true) := by
  fun_induction pieces position text generalizing read with
  | case1 => exact absurd h.symm (List.append_ne_nil_of_right_ne_nil read (List.cons_ne_nil _ _))
  | case2 position c rest hblank ih =>
    obtain ⟨before, d, word, after, rfl, htext, hd, hspan, hfirst, hmore, hblanks⟩ := ih h
    refine ⟨c :: before, d, word, after, rfl, htext, hd, ?_, hfirst, hmore,
      fun hread => List.forall_mem_cons.mpr ⟨hblank, hblanks hread⟩⟩
    rw [hspan, List.cons_append, byteLength_cons, byteLength_cons, Nat.add_assoc, Nat.add_assoc]
  | case3 position c rest hblank length content hfirst word stop =>
    rename_i ih
    obtain ⟨hpos, hle⟩ := firstPiece_bounds hfirst
    have happend : rest = rest.take (length - 1) ++ rest.drop (length - 1) :=
      (List.take_append_drop _ _).symm
    have hlength : word.length = length := by
      rw [List.length_cons] at hle
      rw [List.length_cons, List.length_take]
      omega
    cases read with
    | nil =>
      obtain ⟨rfl, rfl⟩ := List.cons.inj h
      refine ⟨[], c, rest.take (length - 1), rest.drop (length - 1), ?_, rfl,
        Bool.eq_false_of_not_eq_true hblank, rfl, ?_, rfl, fun _ => List.forall_mem_nil _⟩
      · rw [List.nil_append, List.cons_append, ← happend]
      · rw [List.cons_append, ← happend, hfirst]
        exact Prod.ext hlength.symm rfl
    | cons first read =>
      obtain ⟨-, h⟩ := List.cons.inj h
      obtain ⟨before, d, letters, after, hrest, htext, hd, hspan, hfirst, hmore, -⟩ := ih h
      refine ⟨word ++ before, d, letters, after, ?_, htext, hd, ?_, hfirst, hmore,
        fun hread => absurd hread (List.cons_ne_nil _ _)⟩
      · rw [List.append_assoc, ← hrest, List.cons_append, ← happend]
      · rw [hspan, List.append_assoc, byteLength_append word, byteLength_append word,
          ← Nat.add_assoc, ← Nat.add_assoc]

end BindingPlan
