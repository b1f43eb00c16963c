import BindingPlan.Proofs.Token.Literal

/-!
# Words in a row

A text spells a list of tokens if it is cut into them wherever it stands in front of something that
may follow it. Texts that spell tokens are put one behind the other if each may be followed by the
next one.

Main results:

* `Spells.append`: what two texts spell, one behind the other.
* `Spells.lex_eq`: the tokens of a source that spells them.
* `lexesAsName_iff`: the sources that are one name.
-/

namespace BindingPlan

variable {s t word rest : List Char} {tokens more : List Token} {token : Token} {c : Char}
  {ends next : List Char → Prop}

/-- In front of everything that may follow it, the text is cut into the tokens. -/
def Spells (ends : List Char → Prop) (text : List Char) (tokens : List Token) : Prop :=
  ∀ position rest, ends rest → ∃ read, pieces position (text ++ rest) =
      read ++ pieces (position + byteLength text) rest ∧
    read.map Piece.content = tokens.map Except.ok

theorem Spells.append (hs : Spells ends s tokens) (ht : Spells next t more)
    (hends : ∀ rest, next rest → ends (t ++ rest)) : Spells next (s ++ t) (tokens ++ more) := by
  intro position rest hrest
  obtain ⟨read, hread, htokens⟩ := hs position (t ++ rest) (hends rest hrest)
  obtain ⟨read', hread', hmore⟩ := ht (position + byteLength s) rest hrest
  refine ⟨read ++ read', ?_, ?_⟩
  · rw [List.append_assoc, hread, hread', List.append_assoc, byteLength_append, Nat.add_assoc]
  · rw [List.map_append, htokens, hmore, List.map_append]

theorem Spells.mono (h : Spells ends s tokens) (hends : ∀ rest, next rest → ends rest) :
    Spells next s tokens :=
  fun position rest hrest => h position rest (hends rest hrest)

theorem spells_blank (ends : List Char → Prop) : Spells ends [' '] [] := by
  intro position rest _
  refine ⟨[], ?_, rfl⟩
  rw [List.singleton_append, pieces]
  rfl

theorem isBlank_eq_false_of_starts {rule : Rule} (hmem : rule ∈ Rule.all)
    (h : rule.starts c = true) : isBlank c = false := by
  have hnone : ∀ rule ∈ Rule.all, rule.starts ' ' = false ∧ rule.starts '\t' = false ∧
      rule.starts '\r' = false ∧ rule.starts '\n' = false := by decide
  obtain ⟨hspace, htab, hreturn, hfeed⟩ := hnone rule hmem
  by_contra hblank
  have hblank := Bool.eq_true_of_not_eq_false hblank
  simp only [isBlank, Bool.or_eq_true, beq_iff_eq] at hblank
  rcases hblank with ((rfl | rfl) | rfl) | rfl
  · exact Bool.false_ne_true (hspace.symm.trans h)
  · exact Bool.false_ne_true (htab.symm.trans h)
  · exact Bool.false_ne_true (hreturn.symm.trans h)
  · exact Bool.false_ne_true (hfeed.symm.trans h)

/-- A word starts with no blank. -/
theorem isBlank_eq_false_of_firstPiece (h : (firstPiece (c :: rest)).2 = .ok token) :
    isBlank c = false := by
  obtain ⟨rule, hmem, hstarts, -⟩ := exists_rule_of_firstPiece h
  exact isBlank_eq_false_of_starts hmem hstarts

/-- A word that is the first piece in front of everything that may follow it. -/
theorem spells_word (hne : word ≠ [])
    (h : ∀ rest, ends rest → firstPiece (word ++ rest) = (word.length, .ok token)) :
    Spells ends word [token] := by
  intro position rest hrest
  obtain ⟨c, letters, rfl⟩ := List.exists_cons_of_ne_nil hne
  have hfirst : firstPiece (c :: (letters ++ rest)) = ((c :: letters).length, .ok token) :=
    h rest hrest
  have hblank := isBlank_eq_false_of_firstPiece (congrArg Prod.snd hfirst)
  refine ⟨[⟨⟨position, position + byteLength (c :: letters)⟩, c :: letters, .ok token⟩], ?_, rfl⟩
  rw [List.cons_append, pieces, hblank, if_neg Bool.false_ne_true]
  simp only [hfirst, List.length_cons, Nat.add_sub_cancel, List.take_left, List.drop_left]
  rfl

theorem lexemes_of_contents {read : List Piece}
    (h : read.map Piece.content = tokens.map Except.ok) :
    (read.filterMap Piece.lexeme?).map Lexeme.token = tokens ∧
      read.filterMap Piece.error? = [] := by
  induction read generalizing tokens with
  | nil =>
    cases tokens with
    | nil => exact ⟨rfl, rfl⟩
    | cons token tokens => cases h
  | cons piece read ih =>
    cases tokens with
    | nil => cases h
    | cons token tokens =>
      obtain ⟨hpiece, hread⟩ := List.cons.inj h
      obtain ⟨hlexemes, herrors⟩ := ih hread
      have hlexeme : piece.lexeme? = some ⟨token, piece.span⟩ := by
        unfold Piece.lexeme?
        rw [hpiece]
      have herror : piece.error? = none := by
        unfold Piece.error?
        rw [hpiece]
      rw [List.filterMap_cons_some hlexeme, List.filterMap_cons_none herror]
      exact ⟨congrArg (token :: ·) hlexemes, herrors⟩

/-- The tokens of a source that spells them. -/
theorem Spells.lex_eq {source : String} (h : Spells ends source.toList tokens) (hends : ends []) :
    (lex source).tokens.map Lexeme.token = tokens ∧ (lex source).errors = [] := by
  obtain ⟨read, hread, htokens⟩ := h 0 [] hends
  rw [List.append_nil, pieces, List.append_nil] at hread
  have hlexemes := lexemes_of_contents htokens
  rwa [← hread] at hlexemes

/-! ## Words -/

theorem Literal.spells {value : Literal} (h : value.Legible) :
    Spells ReceiverEnd value.render.toList [value.token] := by
  refine spells_word (fun hnil => ?_) fun rest hrest => Literal.firstPiece_render h hrest
  have hfirst : firstPiece (value.render.toList ++ []) = _ := Literal.firstPiece_render h trivial
  rw [hnil] at hfirst
  cases hfirst

theorem IsName.spells {name : String} (h : IsName name.toList) :
    Spells NameEnd name.toList [.name name] := by
  refine spells_word ?_ fun rest hrest => ?_
  · obtain ⟨first, letters, hname, -⟩ := h.shape
    rw [hname]
    exact List.cons_ne_nil _ _
  · rw [firstPiece_append (longestRule?_name h hrest), Rule.token, String.ofList_toList]

/-- What may follow a mark: nothing that makes another mark of it. -/
def Mark.End (m : Mark) (rest : List Char) : Prop :=
  ∀ c ∈ rest.head?, m.grows c = false

theorem Mark.spells {m : Mark} (h : m.isWord = false) : Spells m.End m.text.toList [.mark m] := by
  refine spells_word m.text_ne_nil fun rest hrest => ?_
  refine firstPiece_append (longestRule?_mark hrest fun hword => ?_)
  rw [h] at hword
  cases hword

/-- The source is a name and nothing else. -/
def LexesAsName (name : String) : Prop :=
  (lex name).tokens.map Lexeme.token = [.name name]

/-- The sources that are one name are those of the form of a name. -/
theorem lexesAsName_iff {name : String} : LexesAsName name ↔ IsName name.toList := by
  refine ⟨fun h => ?_, fun h => (h.spells.lex_eq trivial).1⟩
  obtain ⟨lexeme, hlexeme, htoken⟩ := List.mem_map.mp (h ▸ List.mem_cons_self)
  have hmem : ⟨.name name, lexeme.span⟩ ∈ (lex name).tokens := by
    rwa [← htoken]
  exact isName_of_mem_tokens hmem

end BindingPlan
