import BindingPlan.Token.Rule
import Mathlib.Computability.Language

/-!
# The languages of the rules

Each rule as the set of words that it accepts, built from characters by rows, choices and
repetition. The length that a rule reads off the start of a text is that of the longest beginning in
its language.

A row of two languages is read one after the other. This finds the longest beginning if a beginning
in the first language that is too short goes on with a character that no word of the second one
starts with; so `Longest` tells how shorter beginnings go on.

Main definitions:

* `Rule.language`: the words of a rule.
* `Longest`: the length of the longest beginning of a text in a language.

Main results:

* `Rule.longest_longest?`: what a rule reads is the longest beginning in its language.
-/

namespace BindingPlan

open scoped Computability

variable {l m : Language Char} {p q : Char → Prop} {text word rest : List Char} {c : Char}
  {n k : Nat}

/-! ## Words -/

/-- The words of one character that has the property. -/
def oneOf (p : Char → Prop) : Language Char :=
  {word | ∃ c, p c ∧ word = [c]}

/-- A word of the language, or nothing. -/
def maybe (l : Language Char) : Language Char :=
  l + 1

/-- Some characters with the property, at least one. -/
def rowOf (p : Char → Prop) : Language Char :=
  oneOf p * (oneOf p)∗

/-- What stands for one character between quote marks: a character other than the quote mark and
the backslash, or a backslash and any character but a line feed. -/
def unitIn (quote : Char) : Language Char :=
  oneOf (fun c => c ≠ quote ∧ c ≠ '\\') + oneOf (· = '\\') * oneOf (· ≠ '\n')

/-- The exponent of a float literal. -/
def exponentPart : Language Char :=
  oneOf (· ∈ ['e', 'E']) * (maybe (oneOf (· ∈ ['+', '-'])) * rowOf (·.isDigit))

/-- The exponent of a float literal and its suffix, if there are any. -/
def floatEnd : Language Char :=
  maybe exponentPart * maybe (oneOf (· ∈ ['f', 'F', 'd', 'D']))

/-- The words of a rule. -/
def Rule.language : Rule → Language Char
  | .mark m => {m.text.toList}
  | .float => rowOf (·.isDigit) * (oneOf (· = '.') * (rowOf (·.isDigit) * floatEnd))
  | .int => rowOf (·.isDigit) * maybe (oneOf (· ∈ ['l', 'L']))
  | .text quote => oneOf (· = quote) * ((unitIn quote)∗ * oneOf (· = quote))
  | .char => oneOf (· = '\'') * (unitIn '\'' * oneOf (· = '\''))
  | .name => oneOf (isNameStart ·) * (oneOf (isNameRest ·))∗

/-- A word of a repeated language is empty, or has a first part in the language. -/
theorem mem_kstar_iff : word ∈ l∗ ↔ word = [] ∨ ∃ a ∈ l, ∃ b ∈ l∗, a ++ b = word := by
  conv_lhs => rw [← Language.one_add_self_mul_kstar_eq_kstar]
  rw [Language.mem_add, Language.mem_one, Language.mem_mul]

theorem mem_kstar_oneOf : word ∈ (oneOf p)∗ ↔ ∀ c ∈ word, p c := by
  induction word with
  | nil => exact iff_of_true (Language.nil_mem_kstar _) (List.forall_mem_nil _)
  | cons c word ih =>
    rw [mem_kstar_iff, List.forall_mem_cons, ← ih]
    constructor
    · rintro (h | ⟨a, ⟨d, hd, rfl⟩, b, hb, h⟩)
      · cases h
      · obtain ⟨rfl, rfl⟩ := List.cons.inj h
        exact ⟨hd, hb⟩
    · rintro ⟨hc, hword⟩
      exact .inr ⟨[c], ⟨c, hc, rfl⟩, word, hword, rfl⟩

theorem mem_rowOf : word ∈ rowOf p ↔ word ≠ [] ∧ ∀ c ∈ word, p c := by
  unfold rowOf
  rw [Language.mem_mul]
  constructor
  · rintro ⟨a, ⟨c, hc, rfl⟩, b, hb, rfl⟩
    exact ⟨List.cons_ne_nil _ _, List.forall_mem_cons.mpr ⟨hc, mem_kstar_oneOf.mp hb⟩⟩
  · rintro ⟨hne, h⟩
    obtain ⟨c, word, rfl⟩ := List.exists_cons_of_ne_nil hne
    obtain ⟨hc, hword⟩ := List.forall_mem_cons.mp h
    exact ⟨[c], ⟨c, hc, rfl⟩, word, mem_kstar_oneOf.mpr hword, rfl⟩

/-! ## Longest beginnings -/

/-- The length of the longest beginning of the text in the language, `none` if there is no such
beginning; a shorter one goes on with a character that has the property. -/
def Longest (l : Language Char) (p : Char → Prop) (text : List Char) : Option Nat → Prop
  | some n => (∃ word ∈ l, word <+: text ∧ word.length = n) ∧
      ∀ word ∈ l, ∀ rest, word ++ rest = text →
        word.length ≤ n ∧ (word.length < n → ∃ c ∈ rest.head?, p c)
  | none => ∀ word ∈ l, ¬ word <+: text

theorem Longest.take_mem (h : Longest l p text (some n)) : n ≤ text.length ∧ text.take n ∈ l := by
  obtain ⟨⟨word, hword, hfront, rfl⟩, -⟩ := h
  rw [← List.prefix_iff_eq_take.mp hfront]
  exact ⟨hfront.length_le, hword⟩

theorem Longest.exists_le {length : Option Nat} (h : Longest l p text length) (hword : word ∈ l)
    (hfront : word <+: text) : ∃ n, length = some n ∧ word.length ≤ n := by
  cases length with
  | none => exact absurd hfront (h word hword)
  | some n =>
    obtain ⟨rest, hrest⟩ := hfront
    exact ⟨n, rfl, (h.2 word hword rest hrest).1⟩

theorem Longest.mono {length : Option Nat} (h : Longest l p text length) (hpq : ∀ c, p c → q c) :
    Longest l q text length := by
  cases length with
  | none => exact h
  | some n =>
    refine ⟨h.1, fun word hword rest hrest => ?_⟩
    obtain ⟨hle, hmore⟩ := h.2 word hword rest hrest
    refine ⟨hle, fun hlt => ?_⟩
    obtain ⟨c, hc, hp⟩ := hmore hlt
    exact ⟨c, hc, hpq c hp⟩

theorem longest_singleton (word text : List Char) :
    Longest {word} p text (if word.isPrefixOf text then some word.length else none) := by
  split
  · next hfront =>
    refine ⟨⟨word, rfl, List.isPrefixOf_iff_prefix.mp hfront, rfl⟩, ?_⟩
    rintro _ rfl rest -
    exact ⟨Nat.le_refl _, fun hlt => absurd hlt (Nat.lt_irrefl _)⟩
  · next hfront =>
    rintro _ rfl hprefix
    exact hfront (List.isPrefixOf_iff_prefix.mpr hprefix)

theorem longest_oneOf_cons (hc : p c) : Longest (oneOf p) q (c :: rest) (some 1) := by
  refine ⟨⟨[c], ⟨c, hc, rfl⟩, ⟨rest, rfl⟩, rfl⟩, ?_⟩
  rintro _ ⟨d, -, rfl⟩ behind -
  exact ⟨Nat.le_refl 1, fun hlt => absurd hlt (Nat.lt_irrefl 1)⟩

theorem longest_oneOf_none (h : ∀ c ∈ text.head?, ¬ p c) : Longest (oneOf p) q text none := by
  rintro _ ⟨c, hc, rfl⟩ ⟨rest, rfl⟩
  exact h c rfl hc

/-! ### Rows -/

theorem Longest.mul_none (h : Longest l p text none) : Longest (l * m) q text none := by
  intro word hword hfront
  obtain ⟨a, ha, b, -, rfl⟩ := Language.mem_mul.mp hword
  exact h a ha ((List.prefix_append a b).trans hfront)

/-- The second language is read behind the longest beginning in the first one. -/
theorem Longest.mul {length : Option Nat} (hl : Longest l p text (some n))
    (hm : Longest m q (text.drop n) length) (hstart : ∀ word ∈ m, ∀ c ∈ word.head?, ¬ p c) :
    Longest (l * m) (fun c => p c ∨ q c) text (length.map (n + ·)) := by
  obtain ⟨⟨first, hfirst, ⟨behind, hbehind⟩, rfl⟩, hshort⟩ := hl
  subst hbehind
  rw [List.drop_left] at hm
  -- a first part that is too short has nothing of the second language behind it
  have hempty : ∀ a ∈ l, ∀ b ∈ m, ∀ rest, a ++ (b ++ rest) = first ++ behind →
      a.length < first.length → b = [] ∧ ∃ c ∈ rest.head?, p c := by
    intro a ha b hb rest heq hlt
    obtain ⟨c, hc, hp⟩ := (hshort a ha (b ++ rest) heq).2 hlt
    cases b with
    | nil => exact ⟨rfl, c, hc, hp⟩
    | cons d b =>
      cases hc
      exact absurd hp (hstart _ hb c rfl)
  have hwhole : ∀ a ∈ l, ∀ b rest, a ++ (b ++ rest) = first ++ behind →
      ¬ a.length < first.length → a.length = first.length ∧ b ++ rest = behind := by
    intro a ha b rest heq hlt
    have hlength := Nat.le_antisymm (hshort a ha (b ++ rest) heq).1 (Nat.le_of_not_lt hlt)
    exact ⟨hlength, (List.append_inj heq hlength).2⟩
  cases length with
  | none =>
    rintro word hword ⟨rest, heq⟩
    obtain ⟨a, ha, b, hb, rfl⟩ := Language.mem_mul.mp hword
    rw [List.append_assoc] at heq
    by_cases hlt : a.length < first.length
    · obtain ⟨rfl, -⟩ := hempty a ha b hb rest heq hlt
      exact hm [] hb List.nil_prefix
    · exact hm b hb ⟨rest, (hwhole a ha b rest heq hlt).2⟩
  | some k =>
    obtain ⟨⟨second, hsecond, hfront, rfl⟩, hshort'⟩ := hm
    change Longest _ _ _ (some (first.length + second.length))
    refine ⟨⟨first ++ second, Language.append_mem_mul hfirst hsecond,
      (List.prefix_append_right_inj first).mpr hfront, List.length_append⟩, ?_⟩
    intro word hword rest heq
    obtain ⟨a, ha, b, hb, rfl⟩ := Language.mem_mul.mp hword
    rw [List.append_assoc] at heq
    rw [List.length_append]
    by_cases hlt : a.length < first.length
    · obtain ⟨rfl, c, hc, hp⟩ := hempty a ha b hb rest heq hlt
      rw [List.length_nil]
      exact ⟨by omega, fun _ => ⟨c, hc, .inl hp⟩⟩
    · obtain ⟨hlength, heq⟩ := hwhole a ha b rest heq hlt
      obtain ⟨hle, hmore⟩ := hshort' b hb rest heq
      refine ⟨by omega, fun hlt => ?_⟩
      obtain ⟨c, hc, hq⟩ := hmore (by omega)
      exact ⟨c, hc, .inr hq⟩

theorem longest_oneOf_mul {length : Option Nat} (hc : p c) (hm : Longest m q rest length) :
    Longest (oneOf p * m) q (c :: rest) (length.map (1 + ·)) := by
  have hrow := (longest_oneOf_cons (q := fun _ => False) hc).mul hm fun _ _ _ _ => not_false
  exact hrow.mono fun c h => h.resolve_left not_false

theorem longest_oneOf_mul_none (h : ∀ c ∈ text.head?, ¬ p c) :
    Longest (oneOf p * m) q text none :=
  (longest_oneOf_none (q := q) h).mul_none

/-! ### Choices -/

theorem Longest.add_left {length : Option Nat} (hl : Longest l p text length)
    (hm : Longest m q text none) : Longest (l + m) p text length := by
  cases length with
  | none => exact fun word hword => hword.elim (hl word) (hm word)
  | some n =>
    obtain ⟨⟨first, hfirst, hfront⟩, hshort⟩ := hl
    refine ⟨⟨first, .inl hfirst, hfront⟩, fun word hword rest heq => ?_⟩
    rcases hword with hword | hword
    · exact hshort word hword rest heq
    · exact absurd ⟨rest, heq⟩ (hm word hword)

theorem Longest.add_right {length : Option Nat} (hl : Longest l p text none)
    (hm : Longest m q text length) : Longest (l + m) q text length := by
  rw [add_comm]
  exact hm.add_left hl

/-- Nothing is read where the language has no beginning; what starts a word of the language goes on
behind nothing. -/
theorem Longest.maybe {length : Option Nat} (h : Longest l p text length)
    (hstart : ∀ word ∈ l, ∃ c ∈ word.head?, p c) :
    Longest (maybe l) p text (some (length.getD 0)) := by
  cases length with
  | none =>
    refine ⟨⟨[], .inr rfl, List.nil_prefix, rfl⟩, fun word hword rest heq => ?_⟩
    rcases hword with hword | rfl
    · exact absurd ⟨rest, heq⟩ (h word hword)
    · exact ⟨Nat.le_refl 0, fun hlt => absurd hlt (Nat.lt_irrefl 0)⟩
  | some n =>
    obtain ⟨⟨first, hfirst, hfront, rfl⟩, hshort⟩ := h
    refine ⟨⟨first, .inl hfirst, hfront, rfl⟩, fun word hword rest heq => ?_⟩
    rcases hword with hword | rfl
    · exact hshort word hword rest heq
    · refine ⟨Nat.zero_le _, fun _ => ?_⟩
      obtain ⟨c, hc, hp⟩ := hstart first hfirst
      obtain ⟨behind, rfl⟩ := hfront
      refine ⟨c, ?_, hp⟩
      rw [List.nil_append] at heq
      rw [heq, List.head?_append, hc]
      rfl

/-! ### Repetition -/

theorem Longest.kstar_stop (h : Longest l p text none) : Longest l∗ q text (some 0) := by
  refine ⟨⟨[], Language.nil_mem_kstar l, List.nil_prefix, rfl⟩, fun word hword rest heq => ?_⟩
  rcases mem_kstar_iff.mp hword with rfl | ⟨a, ha, b, -, rfl⟩
  · exact ⟨Nat.le_refl 0, fun hlt => absurd hlt (Nat.lt_irrefl 0)⟩
  · rw [List.append_assoc] at heq
    exact absurd ⟨_, heq⟩ (h a ha)

/-- One more word of the language in front, the only one that the text begins with. -/
theorem Longest.kstar_step (h : Longest l (fun _ => False) text (some n))
    (hmore : Longest l∗ q (text.drop n) (some k)) (hstart : ∃ c ∈ text.head?, q c) :
    Longest l∗ q text (some (n + k)) := by
  obtain ⟨⟨first, hfirst, ⟨behind, rfl⟩, rfl⟩, honly⟩ := h
  rw [List.drop_left] at hmore
  obtain ⟨⟨second, hsecond, hfront, rfl⟩, hshort⟩ := hmore
  refine ⟨⟨first ++ second, mem_kstar_iff.mpr (.inr ⟨first, hfirst, second, hsecond, rfl⟩),
    (List.prefix_append_right_inj first).mpr hfront, List.length_append⟩, ?_⟩
  intro word hword rest heq
  rcases mem_kstar_iff.mp hword with rfl | ⟨a, ha, b, hb, rfl⟩
  · rw [List.nil_append] at heq
    exact ⟨Nat.zero_le _, fun _ => heq ▸ hstart⟩
  · rw [List.append_assoc] at heq
    obtain ⟨hle, hlonger⟩ := honly a ha (b ++ rest) heq
    have hlength : a.length = first.length := by
      refine Nat.le_antisymm hle (Nat.le_of_not_lt fun hlt => ?_)
      obtain ⟨_, _, hfalse⟩ := hlonger hlt
      exact hfalse
    obtain ⟨hle, hlonger⟩ := hshort b hb rest (List.append_inj heq hlength).2
    rw [List.length_append]
    exact ⟨by omega, fun hlt => hlonger (by omega)⟩

theorem longest_kstar_oneOf (p : Char → Bool) (text : List Char) :
    Longest (oneOf (p ·))∗ (p ·) text (some (text.takeWhile p).length) := by
  induction text with
  | nil => exact (longest_oneOf_none (q := (p ·)) fun _ hc => by cases hc).kstar_stop
  | cons c text ih =>
    by_cases hc : p c = true
    · rw [List.takeWhile_cons_of_pos hc, List.length_cons, Nat.add_comm]
      exact (longest_oneOf_cons hc).kstar_step ih ⟨c, rfl, hc⟩
    · rw [List.takeWhile_cons_of_neg hc]
      refine (longest_oneOf_none (q := (p ·)) ?_).kstar_stop
      rintro d hd
      cases hd
      exact hc

theorem longest_rowOf (p : Char → Bool) (text : List Char) :
    Longest (rowOf (p ·)) (p ·) text
      (if (text.takeWhile p).length = 0 then none else some (text.takeWhile p).length) := by
  cases text with
  | nil => exact longest_oneOf_mul_none fun _ hc => by cases hc
  | cons c text =>
    by_cases hc : p c = true
    · rw [List.takeWhile_cons_of_pos hc, List.length_cons, if_neg (Nat.succ_ne_zero _),
        Nat.add_comm]
      exact longest_oneOf_mul hc (longest_kstar_oneOf p text)
    · rw [List.takeWhile_cons_of_neg hc, List.length_nil, if_pos rfl]
      refine longest_oneOf_mul_none ?_
      rintro d hd
      cases hd
      exact hc

/-! ## What the rules read -/

theorem longest_mark (m : Mark) (text : List Char) :
    Longest (Rule.mark m).language p text ((Rule.mark m).longest? text) :=
  longest_singleton _ _

theorem longest_digits (text : List Char) :
    Longest (rowOf (·.isDigit)) (·.isDigit) text
      (if countDigits text = 0 then none else some (countDigits text)) :=
  longest_rowOf Char.isDigit text

theorem head?_of_mem_rowOf (h : word ∈ rowOf p) : ∃ c ∈ word.head?, p c := by
  obtain ⟨hne, hword⟩ := mem_rowOf.mp h
  obtain ⟨c, rest, rfl⟩ := List.exists_cons_of_ne_nil hne
  exact ⟨c, rfl, hword c List.mem_cons_self⟩

theorem longest_suffix (letters text : List Char) :
    Longest (maybe (oneOf (· ∈ letters))) (· ∈ letters) text
      (some (countSuffix letters text)) := by
  have hstart : ∀ word ∈ oneOf (· ∈ letters), ∃ c ∈ word.head?, c ∈ letters := by
    rintro _ ⟨c, hc, rfl⟩
    exact ⟨c, rfl, hc⟩
  cases text with
  | nil => exact (longest_oneOf_none fun _ hc => by cases hc).maybe hstart
  | cons c text =>
    by_cases hc : c ∈ letters
    · rw [countSuffix, if_pos hc]
      exact (longest_oneOf_cons hc).maybe hstart
    · rw [countSuffix, if_neg hc]
      refine (longest_oneOf_none ?_).maybe hstart
      rintro d hd
      cases hd
      exact hc

/-- A character that a part of an exponent goes on with. -/
def IsExponentChar (c : Char) : Prop :=
  c.isDigit = true ∨ c ∈ ['e', 'E', '+', '-']

theorem longest_exponent (text : List Char) :
    Longest (maybe exponentPart) IsExponentChar text (some (countExponent text)) := by
  have hstart : ∀ word ∈ exponentPart, ∃ c ∈ word.head?, IsExponentChar c := by
    intro word hword
    obtain ⟨_, ⟨c, hc, rfl⟩, rest, -, rfl⟩ := Language.mem_mul.mp hword
    exact ⟨c, rfl, .inr (List.mem_append_left ['+', '-'] hc)⟩
  have hnone {text : List Char} (h : ∀ c ∈ text.head?, c ∉ ['e', 'E']) :
      Longest (maybe exponentPart) IsExponentChar text (some 0) :=
    (longest_oneOf_mul_none h).maybe hstart
  cases text with
  | nil => exact hnone fun _ hc => by cases hc
  | cons c text =>
    by_cases hmark : c ∈ ['e', 'E']
    · have hunsigned : ∀ word ∈ rowOf (·.isDigit), ∀ c ∈ word.head?, c ∉ ['+', '-'] := by
        rintro word hword c hc hsign
        obtain ⟨_, hd, hdigit⟩ := head?_of_mem_rowOf hword
        cases hc.symm.trans hd
        rcases List.mem_pair.mp hsign with rfl | rfl <;> cases hdigit
      have hdigits := (longest_suffix ['+', '-'] text).mul (longest_digits _) hunsigned
      have hchars : ∀ d, d ∈ ['+', '-'] ∨ d.isDigit = true → IsExponentChar d := fun d hd =>
        hd.elim (fun hsign => .inr (List.mem_append_right ['e', 'E'] hsign)) .inl
      have hwhole := (longest_oneOf_mul (p := (· ∈ ['e', 'E'])) hmark hdigits).mono hchars
      have hmaybe := hwhole.maybe hstart
      rw [countExponent, if_pos (List.mem_pair.mp hmark)]
      dsimp only
      split at hmaybe
      · next hzero =>
        rw [if_pos hzero]
        exact hmaybe
      · next hzero =>
        rw [if_neg hzero, Nat.add_assoc]
        exact hmaybe
    · rw [countExponent, if_neg (mt List.mem_pair.mpr hmark)]
      refine hnone ?_
      rintro d hd
      cases hd
      exact hmark

/-- What is read behind digits is read only if there is a digit, and does not start with one. -/
theorem exists_longest_digits_mul {n : Nat}
    (h : Longest l p (text.drop (countDigits text)) (some n))
    (hstart : ∀ word ∈ l, ∀ c ∈ word.head?, ¬ c.isDigit = true) :
    ∃ q, Longest (rowOf (·.isDigit) * l) q text
      (if countDigits text = 0 then none else some (countDigits text + n)) := by
  have hdigits := longest_digits text
  split at hdigits
  · next hzero =>
    rw [if_pos hzero]
    exact ⟨fun _ => False, hdigits.mul_none⟩
  · next hzero =>
    rw [if_neg hzero]
    exact ⟨_, hdigits.mul h hstart⟩

theorem longest_int (text : List Char) :
    ∃ p, Longest Rule.int.language p text (Rule.int.longest? text) := by
  simp only [Rule.longest?, intLength?]
  refine exists_longest_digits_mul (longest_suffix _ _) ?_
  rintro _ (⟨c, hc, rfl⟩ | rfl) d hd hdigit
  · cases hd
    rcases List.mem_pair.mp hc with rfl | rfl <;> cases hdigit
  · cases hd

theorem longest_floatEnd (text : List Char) :
    ∃ p, Longest floatEnd p text (some (countExponent text +
      countSuffix ['f', 'F', 'd', 'D'] (text.drop (countExponent text)))) := by
  refine ⟨_, (longest_exponent text).mul (longest_suffix _ _) ?_⟩
  rintro _ (⟨c, hc, rfl⟩ | rfl) d hd hexponent
  · cases hd
    revert hexponent
    simp only [List.mem_cons, List.not_mem_nil, or_false] at hc
    unfold IsExponentChar
    rcases hc with rfl | rfl | rfl | rfl <;> decide
  · cases hd

theorem head?_of_mem_floatEnd (h : word ∈ floatEnd) : ∀ c ∈ word.head?, ¬ c.isDigit = true := by
  rintro d hd hdigit
  obtain ⟨a, ha, b, hb, rfl⟩ := Language.mem_mul.mp h
  rcases ha with ha | rfl
  · obtain ⟨_, ⟨c, hc, rfl⟩, rest, -, rfl⟩ := Language.mem_mul.mp ha
    cases hd
    rcases List.mem_pair.mp hc with rfl | rfl <;> cases hdigit
  · rcases hb with ⟨c, hc, rfl⟩ | rfl
    · cases hd
      simp only [List.mem_cons, List.not_mem_nil, or_false] at hc
      rcases hc with rfl | rfl | rfl | rfl <;> cases hdigit
    · cases hd

/-- The digits behind the point of a float literal and what follows them. -/
theorem longest_fraction (text : List Char) :
    ∃ p, Longest (rowOf (·.isDigit) * floatEnd) p text
      (if countDigits text = 0 then none
      else some (countDigits text + (countExponent (text.drop (countDigits text)) +
        countSuffix ['f', 'F', 'd', 'D']
          (text.drop (countDigits text + countExponent (text.drop (countDigits text))))))) := by
  obtain ⟨p, hend⟩ := longest_floatEnd (text.drop (countDigits text))
  have hfraction := exists_longest_digits_mul hend fun _ => head?_of_mem_floatEnd
  rwa [List.drop_drop] at hfraction

theorem longest_float (text : List Char) :
    ∃ p, Longest Rule.float.language p text (Rule.float.longest? text) := by
  have hwhole := longest_digits text
  have hpoint : ∀ word ∈ oneOf (· = '.') * (rowOf (·.isDigit) * floatEnd),
      ∀ c ∈ word.head?, ¬ c.isDigit = true := by
    rintro word hword d hd hdigit
    obtain ⟨_, ⟨c, rfl, rfl⟩, rest, -, rfl⟩ := Language.mem_mul.mp hword
    cases hd
    cases hdigit
  simp only [Rule.longest?, floatLength?]
  by_cases hzero : countDigits text = 0
  · rw [if_pos hzero] at hwhole
    refine ⟨fun _ => False, ?_⟩
    simp only [hzero, true_or, if_true]
    split <;> exact hwhole.mul_none
  rw [if_neg hzero] at hwhole
  split
  · next rest hrest =>
    obtain ⟨p, hfraction⟩ := longest_fraction rest
    have hbehind := longest_oneOf_mul (p := (· = '.')) rfl hfraction
    rw [← hrest] at hbehind
    have hall := hwhole.mul hbehind hpoint
    refine ⟨fun c => c.isDigit = true ∨ p c, ?_⟩
    by_cases hzero' : countDigits rest = 0
    · rw [if_pos hzero'] at hall
      rw [if_pos (.inr hzero')]
      exact hall
    · rw [if_neg hzero'] at hall
      rw [if_neg (not_or_intro hzero hzero')]
      simp only [Nat.add_assoc]
      exact hall
  · next hother =>
    refine ⟨_, hwhole.mul (longest_oneOf_mul_none (q := fun _ => False) ?_) hpoint⟩
    rintro c hc rfl
    obtain ⟨rest, hrest⟩ := List.head?_eq_some_iff.mp hc
    exact hother rest hrest

/-! ### Quotes -/

theorem longest_unitIn_escape (quote : Char) (h : c ≠ '\n') :
    Longest (unitIn quote) q ('\\' :: c :: rest) (some 2) := by
  have hplain : Longest (oneOf fun c => c ≠ quote ∧ c ≠ '\\') q ('\\' :: c :: rest) none := by
    refine longest_oneOf_none ?_
    rintro d hd
    cases hd
    exact fun h => h.2 rfl
  have hescape : Longest (oneOf (· ≠ '\n')) q (c :: rest) (some 1) := longest_oneOf_cons h
  exact hplain.add_right (longest_oneOf_mul (p := (· = '\\')) rfl hescape)

theorem longest_unitIn_plain {quote : Char} (hq : c ≠ quote) (hb : c ≠ '\\') :
    Longest (unitIn quote) q (c :: rest) (some 1) := by
  refine (longest_oneOf_cons ⟨hq, hb⟩).add_left (longest_oneOf_mul_none (q := q) ?_)
  rintro d hd
  cases hd
  exact hb

theorem longest_unitIn_nil (quote : Char) : Longest (unitIn quote) q [] none :=
  (longest_oneOf_none (q := q) fun _ hc => by cases hc).add_left
    (longest_oneOf_mul_none (q := q) fun _ hc => by cases hc)

/-- No unit starts with the quote mark, or with a backslash that has no character behind it. -/
theorem longest_unitIn_none {quote : Char} (h : c = quote ∨ c = '\\')
    (hrest : c = '\\' → ∀ d ∈ rest.head?, d = '\n') :
    Longest (unitIn quote) q (c :: rest) none := by
  rintro word (⟨d, hd, rfl⟩ | hword) ⟨behind, hbehind⟩
  · cases hbehind
    exact h.elim hd.1 hd.2
  · obtain ⟨_, ⟨_, rfl, rfl⟩, _, ⟨d, hd, rfl⟩, rfl⟩ := Language.mem_mul.mp hword
    cases hbehind
    exact hd (hrest rfl d rfl)

theorem longest_units {quote : Char} (hquote : quote ≠ '\\') (text : List Char) :
    Longest (unitIn quote)∗ (· ≠ quote) text (some (countUnits quote text)) := by
  have hnil : Longest (unitIn quote)∗ (· ≠ quote) [] (some 0) :=
    (longest_unitIn_nil (q := (· ≠ quote)) quote).kstar_stop
  fun_induction countUnits quote text with
  | case1 => exact hnil
  | case2 c h =>
    refine (longest_unitIn_none (q := (· ≠ quote)) h fun _ d hd => ?_).kstar_stop
    cases hd
  | case3 c h =>
    obtain ⟨hq, hb⟩ := not_or.mp h
    exact (longest_unitIn_plain hq hb).kstar_step hnil ⟨c, rfl, hq⟩
  | case4 rest =>
    refine (longest_unitIn_none (q := (· ≠ quote)) (.inr rfl) fun _ d hd => ?_).kstar_stop
    exact (Option.mem_some.mp hd).symm
  | case5 d rest hd ih =>
    rw [Nat.add_comm]
    exact (longest_unitIn_escape quote hd).kstar_step ih ⟨_, rfl, hquote.symm⟩
  | case6 d rest hb =>
    exact (longest_unitIn_none (q := (· ≠ quote)) (.inl rfl) fun h => absurd h hb).kstar_stop
  | case7 c d rest hb hq ih =>
    rw [Nat.add_comm]
    exact (longest_unitIn_plain hq hb).kstar_step ih ⟨c, rfl, hq⟩

/-- The quote mark behind a literal, if it stands there. -/
theorem longest_closing (quote : Char) (text : List Char) :
    Longest (oneOf (· = quote)) q text (if text.head? = some quote then some 1 else none) := by
  split
  · next h =>
    obtain ⟨rest, rfl⟩ := List.head?_eq_some_iff.mp h
    exact longest_oneOf_cons (p := (· = quote)) rfl
  · next h =>
    refine longest_oneOf_none ?_
    rintro c hc rfl
    exact h hc

theorem longest_text {quote : Char} (hquote : quote ≠ '\\') (text : List Char) :
    ∃ p, Longest (Rule.text quote).language p text ((Rule.text quote).longest? text) := by
  have hclosing : ∀ word ∈ oneOf (· = quote), ∀ c ∈ word.head?, ¬ c ≠ quote := by
    rintro _ ⟨c, rfl, rfl⟩ d hd
    cases hd
    exact not_not_intro rfl
  simp only [Rule.longest?]
  cases text with
  | nil => exact ⟨fun _ => False, longest_oneOf_mul_none fun _ hc => by cases hc⟩
  | cons c rest =>
    simp only [textLength?]
    by_cases hopening : c = quote
    · have hinner := (longest_units hquote rest).mul
        (longest_closing (q := fun _ => False) quote _) hclosing
      have hall := longest_oneOf_mul (p := (· = quote)) hopening hinner
      rw [List.head?_drop] at hall
      refine ⟨fun c => c ≠ quote ∨ False, ?_⟩
      by_cases hend : rest[countUnits quote rest]? = some quote
      · rw [if_pos hend] at hall
        have hlength : countUnits quote rest + 2 = 1 + (countUnits quote rest + 1) := by omega
        rw [if_pos ⟨hopening, hend⟩, hlength]
        exact hall
      · rw [if_neg hend] at hall
        rw [if_neg (mt And.right hend)]
        exact hall
    · rw [if_neg (mt And.left hopening)]
      refine ⟨fun _ => False, longest_oneOf_mul_none fun d hd => ?_⟩
      cases hd
      exact hopening

/-- A word of the rule for characters: one character between quote marks, or an escape. -/
theorem mem_charLanguage : word ∈ Rule.char.language ↔
    (∃ c, c ≠ '\'' ∧ c ≠ '\\' ∧ word = ['\'', c, '\'']) ∨
      ∃ c, c ≠ '\n' ∧ word = ['\'', '\\', c, '\''] := by
  constructor
  · intro h
    obtain ⟨_, ⟨_, rfl, rfl⟩, _, hinner, rfl⟩ := Language.mem_mul.mp h
    obtain ⟨_, hunit, _, ⟨_, rfl, rfl⟩, rfl⟩ := Language.mem_mul.mp hinner
    rcases hunit with ⟨c, ⟨hq, hb⟩, rfl⟩ | hescape
    · exact .inl ⟨c, hq, hb, rfl⟩
    · obtain ⟨_, ⟨_, rfl, rfl⟩, _, ⟨c, hc, rfl⟩, rfl⟩ := Language.mem_mul.mp hescape
      exact .inr ⟨c, hc, rfl⟩
  · have hquoted {inner : List Char} (h : inner ∈ unitIn '\'') :
        ['\''] ++ (inner ++ ['\'']) ∈ Rule.char.language :=
      Language.append_mem_mul ⟨_, rfl, rfl⟩ (Language.append_mem_mul h ⟨_, rfl, rfl⟩)
    rintro (⟨c, hq, hb, rfl⟩ | ⟨c, hc, rfl⟩)
    · exact hquoted (.inl ⟨c, ⟨hq, hb⟩, rfl⟩)
    · exact hquoted (.inr (Language.append_mem_mul ⟨_, rfl, rfl⟩ ⟨c, hc, rfl⟩))

theorem longest_char (text : List Char) :
    Longest Rule.char.language p text (Rule.char.longest? text) := by
  -- a text begins with one word at most
  have hone (first : List Char) {rest : List Char} (hfirst : first ∈ Rule.char.language)
      (honly : ∀ word ∈ Rule.char.language, word <+: first ++ rest → word.length = first.length) :
      Longest Rule.char.language p (first ++ rest) (some first.length) := by
    refine ⟨⟨first, hfirst, List.prefix_append _ _, rfl⟩, fun word hword rest heq => ?_⟩
    have hlength := honly word hword ⟨rest, heq⟩
    exact ⟨Nat.le_of_eq hlength, fun hlt => absurd hlength (Nat.ne_of_lt hlt)⟩
  simp only [Rule.longest?]
  fun_cases charLength? text with
  | case1 rest =>
    rintro word hword ⟨behind, heq⟩
    rcases mem_charLanguage.mp hword with ⟨c, -, -, rfl⟩ | ⟨c, hc, rfl⟩
    · cases heq
    · cases heq
      exact hc rfl
  | case2 c rest h =>
    refine hone ['\'', '\\', c, '\''] (mem_charLanguage.mpr (.inr ⟨c, h, rfl⟩)) ?_
    rintro word hword ⟨behind, heq⟩
    rcases mem_charLanguage.mp hword with ⟨d, -, hb, rfl⟩ | ⟨d, -, rfl⟩
    · cases heq
      exact absurd rfl hb
    · rfl
  | case3 c rest hnext h =>
    rintro word hword ⟨behind, heq⟩
    rcases mem_charLanguage.mp hword with ⟨d, hq, hb, rfl⟩ | ⟨d, -, rfl⟩
    · cases heq
      exact h.elim hq hb
    · cases heq
      exact hnext behind rfl rfl
  | case4 c rest hnext h =>
    obtain ⟨hq, hb⟩ := not_or.mp h
    refine hone ['\'', c, '\''] (mem_charLanguage.mpr (.inl ⟨c, hq, hb, rfl⟩)) ?_
    rintro word hword ⟨behind, heq⟩
    rcases mem_charLanguage.mp hword with ⟨d, -, -, rfl⟩ | ⟨d, -, rfl⟩
    · rfl
    · cases heq
      exact absurd rfl hb
  | case5 text hescape hplain =>
    rintro word hword ⟨behind, rfl⟩
    rcases mem_charLanguage.mp hword with ⟨c, -, -, rfl⟩ | ⟨c, -, rfl⟩
    · exact hplain c behind rfl
    · exact hescape c behind rfl

theorem longest_name (text : List Char) :
    ∃ p, Longest Rule.name.language p text (Rule.name.longest? text) := by
  simp only [Rule.longest?]
  cases text with
  | nil => exact ⟨fun _ => False, longest_oneOf_mul_none fun _ hc => by cases hc⟩
  | cons c rest =>
    rw [nameLength?]
    split
    · next hstart =>
      have hletters := longest_kstar_oneOf isNameRest rest
      exact ⟨_, longest_oneOf_mul (p := (isNameStart ·)) hstart hletters⟩
    · next hstart =>
      refine ⟨fun _ => False, longest_oneOf_mul_none fun d hd => ?_⟩
      cases hd
      exact hstart

/-- What a rule reads at the start of a text is the longest beginning in its language. -/
theorem Rule.longest_longest? {rule : Rule} (h : rule ∈ Rule.all) (text : List Char) :
    ∃ p, Longest rule.language p text (rule.longest? text) := by
  cases rule with
  | mark m => exact ⟨fun _ => False, longest_mark m text⟩
  | float => exact longest_float text
  | int => exact longest_int text
  | text quote =>
    refine longest_text ?_ text
    rintro rfl
    revert h
    decide
  | char => exact ⟨fun _ => False, longest_char text⟩
  | name => exact longest_name text

theorem Rule.take_mem_language {rule : Rule} (hmem : rule ∈ Rule.all)
    (h : rule.longest? text = some n) : n ≤ text.length ∧ text.take n ∈ rule.language := by
  obtain ⟨p, hlongest⟩ := longest_longest? hmem text
  rw [h] at hlongest
  exact hlongest.take_mem

theorem Rule.exists_le_longest? {rule : Rule} (hmem : rule ∈ Rule.all)
    (hword : word ∈ rule.language) (hfront : word <+: text) :
    ∃ n, rule.longest? text = some n ∧ word.length ≤ n := by
  obtain ⟨p, hlongest⟩ := longest_longest? hmem text
  exact hlongest.exists_le hword hfront

theorem Rule.ne_nil_of_mem_language {rule : Rule} (h : word ∈ rule.language) : word ≠ [] := by
  have hrow {p : Char → Prop} {l : Language Char} (h : word ∈ oneOf p * l) : word ≠ [] := by
    obtain ⟨_, ⟨c, -, rfl⟩, rest, -, rfl⟩ := Language.mem_mul.mp h
    exact List.cons_ne_nil c rest
  cases rule with
  | mark m =>
    cases h
    cases m <;> decide
  | float | int =>
    obtain ⟨a, ha, b, -, rfl⟩ := Language.mem_mul.mp h
    exact List.append_ne_nil_of_left_ne_nil (mem_rowOf.mp ha).1 b
  | text | char | name => exact hrow h

/-- A rule reads the whole of its words. -/
theorem Rule.longest?_eq_length {rule : Rule} (hmem : rule ∈ Rule.all)
    (hword : word ∈ rule.language) : rule.longest? word = some word.length := by
  obtain ⟨n, hn, hle⟩ := exists_le_longest? hmem hword (List.prefix_refl word)
  rw [hn, Nat.le_antisymm hle (take_mem_language hmem hn).1]

end BindingPlan
