import BindingPlan.Proofs.Text.Unbroken
import BindingPlan.Token.Lexer

/-!
# Names among tokens

The rule for names comes last, so a piece of source that is a name has no rule of equal length in
front of it. So a name starts with a letter, `_` or `$`, goes on with those and digits, and is no
keyword.

Main results:

* `isName_of_mem_tokens`: every name among the tokens of a source has this form.
-/

namespace BindingPlan

variable {text : List Char} {name source : String} {rule : Rule} {n position : Nat} {piece : Piece}

/-- A text that the lexer may give as a name. -/
structure IsName (text : List Char) : Prop where
  shape : ∃ first rest, text = first :: rest ∧ isNameStart first = true ∧
    ∀ c ∈ rest, isNameRest c = true
  /-- It is no keyword. -/
  ne_mark : ∀ mark : Mark, mark.text.toList ≠ text

instance : Decidable (IsName text) :=
  decidable_of_iff ((text.head?.any isNameStart ∧ text.tail.all isNameRest) ∧
      ∀ mark ∈ Mark.all, mark.text.toList ≠ text) <| by
    refine ⟨fun ⟨hshape, hmarks⟩ => ⟨?_, fun mark => hmarks mark mark.mem_all⟩,
      fun h => ⟨?_, fun mark _ => h.ne_mark mark⟩⟩
    · cases text with
      | nil => cases hshape.1
      | cons first rest => exact ⟨first, rest, rfl, hshape.1, List.all_eq_true.mp hshape.2⟩
    · obtain ⟨first, rest, rfl, hfirst, hrest⟩ := h.shape
      exact ⟨hfirst, List.all_eq_true.mpr hrest⟩

/-! ## The longest rule -/

/-- Rules in front of the chosen one accept less. -/
theorem longestRule?_eq_some {rules : List Rule} (h : longestRule? rules text = some (rule, n)) :
    ∃ before after, rules = before ++ rule :: after ∧ rule.longest? text = some n ∧
      ∀ other ∈ before, ∀ m, other.longest? text = some m → m < n := by
  induction rules generalizing rule n with
  | nil => cases h
  | cons head rules ih =>
    unfold longestRule? at h
    split at h
    · next hnone =>
      obtain ⟨before, after, rfl, hlongest, hbefore⟩ := ih h
      refine ⟨head :: before, after, rfl, hlongest, fun other hother m hm => ?_⟩
      rcases List.mem_cons.mp hother with rfl | hother
      · rw [hnone] at hm
        cases hm
      · exact hbefore other hother m hm
    · next length hlength hnone =>
      cases h
      exact ⟨[], rules, rfl, hlength, fun _ h => absurd h List.not_mem_nil⟩
    · next length other longer hlength hrest =>
      split at h
      · next hlt =>
        cases h
        obtain ⟨before, after, rfl, hlongest, hbefore⟩ := ih hrest
        refine ⟨head :: before, after, rfl, hlongest, fun other hother m hm => ?_⟩
        rcases List.mem_cons.mp hother with rfl | hother
        · rw [hlength] at hm
          cases hm
          exact hlt
        · exact hbefore other hother m hm
      · cases h
        exact ⟨[], rules, rfl, hlength, fun _ h => absurd h List.not_mem_nil⟩

/-- A name is chosen only if every mark accepts less. -/
theorem lt_of_longestRule?_name (h : longestRule? Rule.all text = some (.name, n)) :
    ∀ mark : Mark, ∀ m, (Rule.mark mark).longest? text = some m → m < n := by
  intro mark m hm
  obtain ⟨before, after, hall, -, hbefore⟩ := longestRule?_eq_some h
  refine hbefore (.mark mark) ?_ m hm
  have hnodup : Rule.all.Nodup := by decide
  rw [hall] at hnodup
  have hbefore : Rule.name ∉ before := fun h =>
    (List.nodup_append.mp hnodup).2.2 _ h _ List.mem_cons_self rfl
  obtain ⟨rfl, -⟩ := append_cons_inj (y := []) hbefore
    (t := Mark.all.map .mark ++ [.float, .int, .text '"', .text '\x60', .char]) (by decide)
    (hall.symm.trans (by unfold Rule.all; rw [List.append_assoc]; rfl))
  exact List.mem_append_left _ (List.mem_map.mpr ⟨mark, mark.mem_all, rfl⟩)

/-! ## Names -/

theorem isName_of_longestRule? (h : longestRule? Rule.all text = some (.name, n)) :
    IsName (text.take n) := by
  have hmarks := lt_of_longestRule?_name h
  obtain ⟨before, after, -, hlongest, -⟩ := longestRule?_eq_some h
  have hlongest : nameLength? text = some n := hlongest
  obtain _ | ⟨first, rest⟩ := text
  · cases hlongest
  · simp only [nameLength?] at hlongest
    split at hlongest
    · next hstart =>
      have hn := Option.some.inj hlongest
      have htake : (first :: rest).take n = first :: rest.takeWhile isNameRest := by
        rw [← hn, Nat.add_comm, List.take_succ_cons]
        congr 1
        exact List.prefix_iff_eq_take.mp (List.takeWhile_prefix _) |>.symm
      refine ⟨⟨first, _, htake, hstart, ?_⟩, ?_⟩
      · exact fun c hc => List.all_eq_true.mp List.all_takeWhile c hc
      intro mark hmark
      -- a keyword of the same length would be taken first
      have hlength : mark.text.toList.length = n := by
        rw [hmark, htake, List.length_cons, ← hn, Nat.add_comm]
      have haccepts : (Rule.mark mark).longest? (first :: rest) = some n := by
        simp only [Rule.longest?]
        rw [if_pos, hlength]
        rw [hmark, List.isPrefixOf_iff_prefix]
        exact List.take_prefix _ _
      exact Nat.lt_irrefl n (hmarks mark n haccepts)
    · cases hlongest

theorem isName_of_firstPiece (h : (firstPiece text).2 = .ok (.name name)) :
    IsName name.toList := by
  unfold firstPiece at h
  split at h
  · next rule length hrule =>
    cases rule with
    | name =>
      cases h
      rw [String.toList_ofList]
      exact isName_of_longestRule? hrule
    | mark => cases h
    | float => cases h
    | int =>
      simp only [Rule.token] at h
      split at h <;> cases h
    | text =>
      simp only [Rule.token] at h
      split at h <;> cases h
    | char =>
      simp only [Rule.token] at h
      split at h <;> cases h
  · cases h

theorem exists_firstPiece_of_mem_pieces (h : piece ∈ pieces position text) :
    ∃ rest, piece.content = (firstPiece rest).2 := by
  fun_induction pieces position text with
  | case1 => cases h
  | case2 position c rest hblank ih => exact ih h
  | case3 position c rest hblank length content hfirst text stop ih =>
    rcases List.mem_cons.mp h with rfl | h
    · exact ⟨c :: rest, by rw [hfirst]⟩
    · exact ih h

/-- A name among the tokens of a source has the form of a name. -/
theorem isName_of_mem_tokens {span : Span} (h : ⟨.name name, span⟩ ∈ (lex source).tokens) :
    IsName name.toList := by
  obtain ⟨piece, hpiece, hlexeme⟩ := List.mem_filterMap.mp h
  obtain ⟨rest, hcontent⟩ := exists_firstPiece_of_mem_pieces hpiece
  unfold Piece.lexeme? at hlexeme
  split at hlexeme
  · next token hok =>
    cases hlexeme
    exact isName_of_firstPiece (hcontent.symm.trans hok)
  · cases hlexeme

end BindingPlan
