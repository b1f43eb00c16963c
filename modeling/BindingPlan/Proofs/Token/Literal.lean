import BindingPlan.Proofs.Decimal.Reading
import BindingPlan.Proofs.Text.Quoted
import BindingPlan.Proofs.Token.Longest
import BindingPlan.Tree

/-!
# Literals read back

The text of a literal is one word, and the word has the value of the literal: digits have the number
that they were written for, a decimal reads as the number that covers it, and the escapes of the
lexer are undone. This leaves out numbers written with an exponent or beyond all finite ones, and
characters that are written with an escape that the lexer does not know.

Main results:

* `unescape_flatMap`: unescaping undoes the escapes of a legible text.
* `Literal.firstPiece_render`: a legible literal reads back in front of what may follow a receiver.
-/

namespace BindingPlan

open Nat (toDigits)

variable {quote c : Char} {text rest word : List Char}

/-! ## Escapes -/

/-- The escapes that the lexer knows, of those that quoting writes. -/
def knownEscapes : List (List Char) :=
  [['\\', 'n'], ['\\', 't'], ['\\', '\\'], ['\\', '"'], ['\\', '\'']]

/-- The character is quoted as it is or with an escape that the lexer knows. -/
def LegibleIn (quote c : Char) : Prop :=
  escapeChar quote c = [c] ∨ escapeChar quote c ∈ knownEscapes

instance : Decidable (LegibleIn quote c) :=
  inferInstanceAs (Decidable (_ ∨ _))

theorem unescape_cons_of_ne (h : c ≠ '\\') :
    unescape (c :: text) = (unescape text).map (c :: ·) := by
  cases text with
  | nil => exact if_neg h
  | cons d text =>
    rw [unescape.eq_def]
    exact if_neg h

/-- How a legible character is written, and that this is undone. -/
theorem LegibleIn.cases (h : LegibleIn quote c) (hquote : quote = '"' ∨ quote = '\'') :
    (escapeChar quote c = [c] ∧ c ≠ quote ∧ c ≠ '\\') ∨
      ∃ mark, escapeChar quote c = ['\\', mark] ∧ mark ≠ '\n' ∧
        ∀ text, unescape ('\\' :: mark :: text) = (unescape text).map (c :: ·) := by
  have hwritten := writtenAs_escapeChar (c := c) hquote
  unfold LegibleIn at h
  generalize escapeChar quote c = written at *
  cases hwritten with
  | plain hq hb => exact .inl ⟨rfl, hq, hb⟩
  | short mark hu hc =>
    refine .inr ⟨mark, rfl, ?_⟩
    have hmark : mark ∈ ['n', 't', '\\', '"', '\''] := by
      simpa [knownEscapes] using h
    simp only [List.mem_cons, List.not_mem_nil, or_false] at hmark
    rcases hmark with rfl | rfl | rfl | rfl | rfl <;>
      exact ⟨by decide, fun text => by rw [hc]; rfl⟩
  | code =>
    have hlength := Nat.length_toDigits_pos (b := 16) (n := c.toNat)
    rcases h with h | h
    · simpa using congrArg List.length h
    · simp only [knownEscapes, List.mem_cons, List.not_mem_nil, or_false] at h
      rcases h with h | h | h | h | h <;> simpa using congrArg List.length h

/-- Unescaping undoes the escapes of a legible text. -/
theorem unescape_flatMap (hquote : quote = '"' ∨ quote = '\'') (h : ∀ c ∈ text, LegibleIn quote c) :
    unescape (text.flatMap (escapeChar quote)) = some text := by
  induction text with
  | nil => rfl
  | cons c text ih =>
    have ih := ih fun d hd => h d (List.mem_cons_of_mem _ hd)
    rw [List.flatMap_cons]
    rcases (h c List.mem_cons_self).cases hquote with ⟨heq, -, hb⟩ | ⟨mark, heq, -, hundo⟩
    · rw [heq, List.singleton_append, unescape_cons_of_ne hb, ih]
      rfl
    · rw [heq, List.cons_append, List.singleton_append, hundo, ih]
      rfl

theorem countUnits_cons_of_ne (hq : c ≠ quote) (hb : c ≠ '\\') :
    countUnits quote (c :: text) = countUnits quote text + 1 := by
  cases text with
  | nil => simp [countUnits, hq, hb]
  | cons d text => simp [countUnits, hq, hb]

theorem countUnits_escape {mark : Char} (h : mark ≠ '\n') :
    countUnits quote ('\\' :: mark :: text) = countUnits quote text + 2 := by
  simp [countUnits, h]

theorem countUnits_quote (h : quote = '"' ∨ quote = '\'') :
    countUnits quote (quote :: text) = 0 := by
  rcases h with rfl | rfl <;> cases text <;> simp [countUnits]

/-- The units of a legible text go up to the quote mark behind it. -/
theorem countUnits_flatMap (hquote : quote = '"' ∨ quote = '\'')
    (h : ∀ c ∈ text, LegibleIn quote c) :
    countUnits quote (text.flatMap (escapeChar quote) ++ quote :: rest) =
      (text.flatMap (escapeChar quote)).length := by
  induction text with
  | nil => exact countUnits_quote hquote
  | cons c text ih =>
    have ih := ih fun d hd => h d (List.mem_cons_of_mem _ hd)
    rw [List.flatMap_cons, List.append_assoc, List.length_append]
    rcases (h c List.mem_cons_self).cases hquote with ⟨heq, hq, hb⟩ | ⟨mark, heq, hmark, -⟩
    · rw [heq, List.singleton_append, countUnits_cons_of_ne hq hb, ih, List.length_singleton,
        Nat.add_comm]
    · rw [heq, List.cons_append, List.singleton_append, countUnits_escape hmark, ih, Nat.add_comm]
      rfl

/-! ## Quoted words -/

theorem withoutQuotes_quoteWith (quote : Char) (text : List Char) :
    withoutQuotes (quoteWith quote text) = text.flatMap (escapeChar quote) := by
  unfold withoutQuotes quoteWith
  rw [List.drop_succ_cons, List.drop_zero, List.dropLast_concat]

theorem firstPiece_text (h : ∀ c ∈ text, LegibleIn '"' c) (rest : List Char) :
    firstPiece (quoteWith '"' text ++ rest) =
      ((quoteWith '"' text).length, .ok (.text (String.ofList text))) := by
  have haccepts : (Rule.text '"').longest? (quoteWith '"' text ++ rest) =
      some (quoteWith '"' text).length := by
    unfold quoteWith
    simp only [Rule.longest?, List.cons_append, textLength?, List.append_assoc, List.nil_append]
    rw [countUnits_flatMap (.inl rfl) h, if_pos (by simp)]
    simp
  have hother : ∀ other ∈ Rule.all, other ≠ .text '"' → other.starts '"' = false := by
    decide
  rw [firstPiece_append (longestRule?_of_lt (by decide) haccepts ?_)]
  · simp only [Rule.token]
    rw [withoutQuotes_quoteWith, unescape_flatMap (.inl rfl) h]
  · intro other hmem hne k hk
    unfold quoteWith at hk
    rw [List.cons_append, Rule.longest?_eq_none (hother other hmem hne)] at hk
    cases hk

theorem charLength?_plain (hq : c ≠ '\'') (hb : c ≠ '\\') :
    charLength? ('\'' :: c :: '\'' :: rest) = some 3 := by
  unfold charLength?
  split
  · next heq =>
    cases heq
    exact absurd rfl hb
  · next heq =>
    cases heq
    exact if_neg (by simp [hq, hb])
  · next hne => exact absurd rfl (hne c rest)

theorem firstPiece_char (h : LegibleIn '\'' c) (rest : List Char) :
    firstPiece (quoteWith '\'' [c] ++ rest) = ((quoteWith '\'' [c]).length, .ok (.char c)) := by
  have haccepts : Rule.char.longest? (quoteWith '\'' [c] ++ rest) =
      some (quoteWith '\'' [c]).length := by
    unfold quoteWith
    simp only [List.flatMap_cons, List.flatMap_nil, List.append_nil]
    rcases h.cases (.inr rfl) with ⟨heq, hq, hb⟩ | ⟨mark, heq, hmark, -⟩
    · rw [heq]
      exact charLength?_plain hq hb
    · rw [heq]
      exact if_neg hmark
  have hother : ∀ other ∈ Rule.all, other ≠ .char → other.starts '\'' = false := by
    decide
  rw [firstPiece_append (longestRule?_of_lt (by decide) haccepts ?_)]
  · have hundo : unescape ([c].flatMap (escapeChar '\'')) = some [c] :=
      unescape_flatMap (.inr rfl) fun d hd => by rwa [List.mem_singleton.mp hd]
    simp only [Rule.token]
    rw [withoutQuotes_quoteWith, hundo]
  · intro other hmem hne k hk
    unfold quoteWith at hk
    rw [List.cons_append, Rule.longest?_eq_none (hother other hmem hne)] at hk
    cases hk

/-! ## Numbers -/

theorem digitsValue_eq (digits : List Char) : digitsValue digits = Nat.ofDigitChars 10 digits 0 :=
  rfl

theorem takeWhile_isDigit (h : AllDigits word) : word.takeWhile Char.isDigit = word := by
  have hall : (word ++ []).takeWhile Char.isDigit = word :=
    takeWhile_append_of_head? h fun _ hc => by cases hc
  rwa [List.append_nil] at hall

theorem firstPiece_int {value : Nat} (h : value ≤ maxInt) (hrest : ReceiverEnd rest) :
    firstPiece (toDigits 10 value ++ rest) = ((toDigits 10 value).length, .ok (.int value)) := by
  have hdigits := allDigits_toDigits value
  rw [firstPiece_append (longestRule?_int hdigits Nat.toDigits_ne_nil hrest)]
  simp only [Rule.token]
  rw [takeWhile_isDigit hdigits, digitsValue_eq, Nat.ofDigitChars_ten_toDigits, if_pos h]

/-- Digits around a point read as the decimal that they write. -/
theorem floatValue_pointed {whole fraction : List Char} (hw : AllDigits whole)
    (hf : AllDigits fraction) : floatValue (whole ++ '.' :: fraction) =
      Decimal.toBinary64 ⟨Nat.ofDigitChars 10 (whole ++ fraction) 0, -fraction.length⟩ := by
  have hwhole : (whole ++ '.' :: fraction).takeWhile Char.isDigit = whole :=
    takeWhile_append_of_head? hw fun c hc => by cases hc; rfl
  have hdrop : (whole ++ '.' :: fraction).drop (whole.length + 1) = fraction := by
    rw [← List.drop_drop, List.drop_left]
    rfl
  unfold floatValue
  simp only [hwhole, hdrop, takeWhile_isDigit hf, List.drop_length]
  rw [digitsValue_eq]
  simp [exponentValue, countExponent]

theorem firstPiece_float {value : Binary64} (h : value.isFinite = true)
    (hplain : 'e' ∉ (value.styledText .literal).toList) (hrest : ReceiverEnd rest) :
    firstPiece ((value.styledText .literal).toList ++ rest) =
      ((value.styledText .literal).toList.length, .ok (.float value)) := by
  obtain ⟨q, hreads, hcovers⟩ := Binary64.exists_reads h
  generalize (value.styledText .literal).toList = written at *
  cases hreads with
  | scientific => exact absurd (by simp) hplain
  | @pointed whole fraction hw hf hwhole hfraction =>
    rw [firstPiece_append (longestRule?_float hw hf hwhole hfraction hrest)]
    simp only [Rule.token]
    rw [floatValue_pointed hw hf, Binary64.toBinary64_eq_of_covers h]
    convert hcovers using 1
    unfold Decimal.value
    rw [zpow_neg, zpow_natCast, div_eq_mul_inv]

/-! ## Literals -/

/-- The word of a literal. -/
def Literal.token : Literal → Token
  | .null => .mark .nullWord
  | .bool true => .mark .trueWord
  | .bool false => .mark .falseWord
  | .int value => .int value
  | .float value => .float value
  | .text value => .text value
  | .char value => .char value

/-- The literal is written so that the lexer reads it: without an exponent, in the range of
integers, and with escapes that it knows. -/
def Literal.Legible : Literal → Prop
  | .null | .bool _ => True
  | .int value => value ≤ maxInt
  | .float value => value.isFinite = true ∧ 'e' ∉ (value.styledText .literal).toList
  | .text value => ∀ c ∈ value.toList, LegibleIn '"' c
  | .char value => LegibleIn '\'' value

instance : DecidablePred Literal.Legible
  | .null | .bool _ => inferInstanceAs (Decidable True)
  | .int value => inferInstanceAs (Decidable (value ≤ maxInt))
  | .float value =>
    inferInstanceAs (Decidable (value.isFinite = true ∧ 'e' ∉ (value.styledText .literal).toList))
  | .text value => List.decidableBAll (LegibleIn '"') value.toList
  | .char value => inferInstanceAs (Decidable (LegibleIn '\'' value))

theorem firstPiece_keyword {m : Mark} (h : m.isWord = true) (hrest : ReceiverEnd rest) :
    firstPiece (m.text.toList ++ rest) = (m.text.toList.length, .ok (.mark m)) := by
  have hgrows : ∀ c ∈ rest.head?, m.grows c = false := by
    intro c hc
    rcases hrest.head? c hc with rfl | rfl | rfl | rfl <;> cases m <;> rfl
  exact firstPiece_append (longestRule?_mark hgrows fun _ => hrest.nameEnd)

/-- A legible literal reads back. -/
theorem Literal.firstPiece_render {value : Literal} (h : value.Legible) (hrest : ReceiverEnd rest) :
    firstPiece (value.render.toList ++ rest) = (value.render.toList.length, .ok value.token) := by
  cases value with
  | null => exact firstPiece_keyword (m := .nullWord) rfl hrest
  | bool value =>
    cases value with
    | false => exact firstPiece_keyword (m := .falseWord) rfl hrest
    | true => exact firstPiece_keyword (m := .trueWord) rfl hrest
  | int value =>
    have hrender : (Literal.int value).render.toList = toDigits 10 value := Nat.toList_repr
    rw [hrender]
    exact firstPiece_int h hrest
  | float value => exact firstPiece_float h.1 h.2 hrest
  | text value =>
    have hrender : (Literal.text value).render.toList = quoteWith '"' value.toList :=
      String.toList_ofList
    rw [hrender, firstPiece_text h, String.ofList_toList]
    rfl
  | char value =>
    have hrender : (Literal.char value).render.toList = quoteWith '\'' [value] :=
      String.toList_ofList
    rw [hrender]
    exact firstPiece_char h rest

end BindingPlan
