import BindingPlan.Proofs.Decimal.Written
import BindingPlan.Proofs.Token.End
import BindingPlan.Proofs.Token.Name
import Mathlib.Data.List.Nodup

/-!
# The longest word

What a rule accepts is told by the first character, up to the choice between a keyword and a name
and between the two forms of numbers. A word that is followed by what ends it is the longest
beginning that some rule accepts, and of the rules that accept it its own rule comes first.

Main results:

* `longestRule?_append_cons`: which rule is chosen.
* `longestRule?_mark`, `longestRule?_name`, `longestRule?_int`, `longestRule?_float`: words in front
  of what ends them.
-/

namespace BindingPlan

variable {text word rest whole fraction : List Char} {c : Char} {n : Nat} {rule : Rule}
  {before after : List Rule}

/-! ## The chosen rule -/

/-- A rule is chosen if those in front of it accept less, and those behind it no more. -/
theorem longestRule?_append_cons (h : rule.longest? text = some n)
    (hbefore : ∀ other ∈ before, ∀ m, other.longest? text = some m → m < n)
    (hafter : ∀ other ∈ after, ∀ m, other.longest? text = some m → m ≤ n) :
    longestRule? (before ++ rule :: after) text = some (rule, n) := by
  induction before with
  | nil =>
    rw [List.nil_append, longestRule?, h]
    split
    · next hnone => cases hnone
    · next hlength _ =>
      cases hlength
      rfl
    · next length other longer hlength hrest =>
      cases hlength
      obtain ⟨_, _, rfl, hlonger, -⟩ := longestRule?_eq_some hrest
      exact if_neg (Nat.not_lt_of_le (hafter other (by simp) longer hlonger))
  | cons head before ih =>
    have ih := ih fun other hother => hbefore other (List.mem_cons_of_mem _ hother)
    rw [List.cons_append, longestRule?, ih]
    cases hhead : head.longest? text with
    | none => rfl
    | some m => exact if_pos (hbefore head List.mem_cons_self m hhead)

/-- A rule is chosen if all others accept less. -/
theorem longestRule?_of_lt (hmem : rule ∈ Rule.all) (h : rule.longest? text = some n)
    (hother : ∀ other ∈ Rule.all, other ≠ rule → ∀ m, other.longest? text = some m → m < n) :
    longestRule? Rule.all text = some (rule, n) := by
  obtain ⟨before, after, hall⟩ := List.append_of_mem hmem
  have hnodup : Rule.all.Nodup := by decide
  rw [hall] at hnodup hother ⊢
  obtain ⟨-, hafter, hbefore⟩ := List.nodup_append.mp hnodup
  refine longestRule?_append_cons h (fun other hin => ?_) fun other hin m hm => ?_
  · refine hother other (List.mem_append_left _ hin) ?_
    exact hbefore other hin rule List.mem_cons_self
  · refine Nat.le_of_lt (hother other (by simp [hin]) ?_ m hm)
    rintro rfl
    exact (List.nodup_cons.mp hafter).1 hin

/-- The piece at the start of a text with a word of the chosen rule. -/
theorem firstPiece_append (h : longestRule? Rule.all (word ++ rest) = some (rule, word.length)) :
    firstPiece (word ++ rest) = (word.length, rule.token word) := by
  unfold firstPiece
  rw [h]
  dsimp only
  rw [List.take_left]

/-! ## First characters -/

/-- Whether a text of the rule can start with the character. -/
def Rule.starts (c : Char) : Rule → Bool
  | .mark m => m.text.toList.head? == some c
  | .float | .int => c.isDigit
  | .text quote => c == quote
  | .char => c == '\''
  | .name => isNameStart c

theorem Mark.text_ne_nil (m : Mark) : m.text.toList ≠ [] := by
  cases m <;> decide

theorem countDigits_cons_of_not (h : c.isDigit = false) (rest : List Char) :
    countDigits (c :: rest) = 0 := by
  unfold countDigits
  rw [List.takeWhile_cons_of_neg (by simp [h]), List.length_nil]

theorem Rule.starts_of_longest? (h : rule.longest? (c :: rest) = some n) :
    rule.starts c = true := by
  cases rule with
  | mark m =>
    simp only [longest?] at h
    split at h
    · next hfront =>
      obtain ⟨first, more, hm⟩ := List.exists_cons_of_ne_nil m.text_ne_nil
      rw [hm, List.isPrefixOf_iff_prefix, List.cons_prefix_cons] at hfront
      rw [starts, hm, hfront.1]
      exact beq_self_eq_true _
    · cases h
  | float =>
    by_contra hdigit
    have hzero := countDigits_cons_of_not (Bool.eq_false_of_not_eq_true hdigit) rest
    simp only [longest?, floatLength?, hzero] at h
    split at h
    · simp at h
    · cases h
  | int =>
    by_contra hdigit
    have hzero := countDigits_cons_of_not (Bool.eq_false_of_not_eq_true hdigit) rest
    simp only [longest?, intLength?, hzero] at h
    cases h
  | text quote =>
    simp only [longest?, textLength?] at h
    split at h
    · next hquote => exact beq_iff_eq.mpr hquote.1
    · cases h
  | char =>
    simp only [longest?] at h
    unfold charLength? at h
    split at h
    · next heq => exact beq_iff_eq.mpr (List.cons.inj heq).1
    · next heq => exact beq_iff_eq.mpr (List.cons.inj heq).1
    · cases h
  | name =>
    simp only [longest?, nameLength?] at h
    split at h
    · assumption
    · cases h

/-- The first character of a word tells its rule. -/
theorem exists_rule_of_firstPiece {token : Token} (h : (firstPiece (c :: rest)).2 = .ok token) :
    ∃ rule ∈ Rule.all, rule.starts c = true ∧ ∃ word, rule.token word = .ok token := by
  unfold firstPiece at h
  split at h
  · next rule n hrule =>
    obtain ⟨before, after, hall, hlongest, -⟩ := longestRule?_eq_some hrule
    refine ⟨rule, ?_, Rule.starts_of_longest? hlongest, _, h⟩
    rw [hall]
    exact List.mem_append_right _ List.mem_cons_self
  · cases h

/-- Words with different first characters have different rules. -/
theorem Rule.longest?_eq_none (h : rule.starts c = false) : rule.longest? (c :: rest) = none := by
  by_contra hne
  obtain ⟨n, hn⟩ := Option.ne_none_iff_exists'.mp hne
  rw [starts_of_longest? hn] at h
  cases h

theorem starts_mark_of_isDigit (h : c.isDigit = true) (m : Mark) :
    (Rule.mark m).starts c = false := by
  rw [← Bool.not_eq_true]
  intro hstarts
  have hhead : m.text.toList.head? = some c := beq_iff_eq.mp hstarts
  cases m <;> cases hhead <;> cases h

/-- Only marks and names start like a mark. -/
theorem starts_of_head?_mark {m : Mark} (h : m.text.toList.head? = some c) :
    ∀ rule ∈ [Rule.float, .int, .text '"', .text '\x60', .char], rule.starts c = false := by
  cases m <;> cases h <;> decide

/-! ## Runs -/

/-- A run goes on until a character that does not belong to it. -/
theorem takeWhile_append_of_head? {p : Char → Bool} (h : ∀ c ∈ word, p c = true)
    (hstop : ∀ c ∈ rest.head?, p c = false) : (word ++ rest).takeWhile p = word := by
  rw [List.takeWhile_append_of_pos h]
  cases rest with
  | nil => simp
  | cons c rest =>
    rw [List.takeWhile_cons_of_neg (by simp [hstop c rfl]), List.append_nil]

theorem countDigits_append (h : AllDigits word) (hstop : ∀ c ∈ rest.head?, c.isDigit = false) :
    countDigits (word ++ rest) = word.length := by
  unfold countDigits
  rw [takeWhile_append_of_head? h hstop]

theorem nameLength?_append (hstart : isNameStart c = true)
    (hword : ∀ d ∈ word, isNameRest d = true) (hrest : NameEnd rest) :
    nameLength? (c :: (word ++ rest)) = some (c :: word).length := by
  have hstop : ∀ c ∈ rest.head?, isNameRest c = false := by
    cases rest with
    | nil => exact fun _ h => by cases h
    | cons d rest =>
      rintro c hc
      cases hc
      exact hrest
  rw [nameLength?, if_pos hstart, takeWhile_append_of_head? hword hstop, List.length_cons,
    Nat.add_comm]

theorem ReceiverEnd.head? (h : ReceiverEnd rest) :
    ∀ c ∈ rest.head?, c = ' ' ∨ c = ')' ∨ c = ',' ∨ c = '.' := by
  intro c hc
  rcases h.cases with h | ⟨_, _, rfl, -⟩
  · cases rest with
    | nil => cases hc
    | cons d rest =>
      cases hc
      rcases h with h | h | h
      · exact .inl h
      · exact .inr (.inl h)
      · exact .inr (.inr (.inl h))
  · cases hc
    exact .inr (.inr (.inr rfl))

theorem ReceiverEnd.nameEnd (h : ReceiverEnd rest) : NameEnd rest := by
  cases rest with
  | nil => trivial
  | cons c rest => rcases h.head? c rfl with rfl | rfl | rfl | rfl <;> rfl

/-! ## Marks -/

/-- Whether another mark goes on behind this one with the character. -/
def Mark.grows (m : Mark) (c : Char) : Bool :=
  Mark.all.any fun other => (m.text.toList ++ [c]).isPrefixOf other.text.toList

/-- Whether the mark is a keyword. -/
def Mark.isWord (m : Mark) : Bool :=
  m.text.toList.head?.any isNameStart

theorem Mark.text_inj {m other : Mark} (h : m.text.toList = other.text.toList) : m = other := by
  have hnodup : (Mark.all.map fun mark => mark.text.toList).Nodup := by decide
  exact List.inj_on_of_nodup_map hnodup m.mem_all other.mem_all h

theorem Mark.length_le_of_starts {m other : Mark} (h : ∀ c ∈ rest.head?, m.grows c = false)
    (hother : other.text.toList <+: m.text.toList ++ rest) :
    other.text.toList.length ≤ m.text.toList.length := by
  by_contra hlonger
  cases rest with
  | nil =>
    rw [List.append_nil] at hother
    exact hlonger hother.length_le
  | cons c rest =>
    have hgrown : m.text.toList ++ [c] <+: m.text.toList ++ c :: rest :=
      ⟨rest, by rw [List.append_assoc, List.singleton_append]⟩
    have hfront := List.prefix_of_prefix_length_le hgrown hother
      (by rw [List.length_append, List.length_singleton]; omega)
    have hgrows : m.grows c = true :=
      List.any_eq_true.mpr ⟨other, other.mem_all, List.isPrefixOf_iff_prefix.mpr hfront⟩
    rw [h c rfl] at hgrows
    cases hgrows

theorem Mark.length_lt_of_starts {m other : Mark} (h : ∀ c ∈ rest.head?, m.grows c = false)
    (hne : other ≠ m) (hother : other.text.toList <+: m.text.toList ++ rest) :
    other.text.toList.length < m.text.toList.length := by
  refine Nat.lt_of_le_of_ne (length_le_of_starts h hother) fun heq => hne ?_
  have hfront := List.prefix_of_prefix_length_le hother (List.prefix_append _ _) (Nat.le_of_eq heq)
  exact text_inj (hfront.eq_of_length heq)

theorem Mark.forall_isNameRest {m : Mark} (h : m.isWord = true) :
    ∀ c ∈ m.text.toList, isNameRest c = true := by
  cases m <;> first | exact List.all_eq_true.mp (by decide) | cases h

theorem nameLength?_mark {m : Mark} (h : m.isWord = true → NameEnd rest) :
    ∀ k, nameLength? (m.text.toList ++ rest) = some k → k = m.text.toList.length := by
  intro k hk
  obtain ⟨c, more, hm⟩ := List.exists_cons_of_ne_nil m.text_ne_nil
  have hword : m.isWord = isNameStart c := by
    unfold Mark.isWord
    rw [hm]
    rfl
  rw [hm] at hk
  cases hstart : isNameStart c with
  | false =>
    rw [List.cons_append, nameLength?, hstart] at hk
    cases hk
  | true =>
    have hmore : ∀ d ∈ more, isNameRest d = true := fun d hd =>
      Mark.forall_isNameRest (hword.trans hstart) d (hm ▸ List.mem_cons_of_mem c hd)
    rw [List.cons_append, nameLength?_append hstart hmore (h (hword.trans hstart))] at hk
    rw [hm]
    exact (Option.some.inj hk).symm

theorem Rule.longest?_mark {m : Mark} {text : List Char} {k : Nat}
    (h : (Rule.mark m).longest? text = some k) :
    m.text.toList <+: text ∧ k = m.text.toList.length := by
  simp only [longest?] at h
  split at h
  · next hfront => exact ⟨List.isPrefixOf_iff_prefix.mp hfront, (Option.some.inj h).symm⟩
  · cases h

/-- A mark is a piece if no other mark goes on behind it and a keyword is a whole word. -/
theorem longestRule?_mark {m : Mark} (h : ∀ c ∈ rest.head?, m.grows c = false)
    (hword : m.isWord = true → NameEnd rest) :
    longestRule? Rule.all (m.text.toList ++ rest) = some (.mark m, m.text.toList.length) := by
  obtain ⟨before, after, hall⟩ := List.append_of_mem m.mem_all
  have hrules : Rule.all = before.map .mark ++ .mark m ::
      (after.map .mark ++ [.float, .int, .text '"', .text '\x60', .char, .name]) := by
    rw [Rule.all, hall, List.map_append, List.map_cons, List.append_assoc, List.cons_append]
  have haccepts : (Rule.mark m).longest? (m.text.toList ++ rest) = some m.text.toList.length := by
    simp only [Rule.longest?]
    rw [if_pos (List.isPrefixOf_iff_prefix.mpr (List.prefix_append _ _))]
  rw [hrules]
  refine longestRule?_append_cons haccepts ?_ ?_
  · intro rule hrule k hk
    obtain ⟨other, hother, rfl⟩ := List.mem_map.mp hrule
    obtain ⟨hfront, rfl⟩ := Rule.longest?_mark hk
    have hnodup : Mark.all.Nodup := by decide
    rw [hall] at hnodup
    have hne : other ≠ m := (List.nodup_append.mp hnodup).2.2 other hother m List.mem_cons_self
    exact Mark.length_lt_of_starts h hne hfront
  · intro rule hrule k hk
    rcases List.mem_append.mp hrule with hrule | hrule
    · obtain ⟨other, -, rfl⟩ := List.mem_map.mp hrule
      obtain ⟨hfront, rfl⟩ := Rule.longest?_mark hk
      exact Mark.length_le_of_starts h hfront
    · have hrule : rule ∈ [.float, .int, .text '"', .text '\x60', .char] ++ [.name] := hrule
      rcases List.mem_append.mp hrule with hrule | hrule
      · obtain ⟨c, more, hm⟩ := List.exists_cons_of_ne_nil m.text_ne_nil
        have hstarts := starts_of_head?_mark (c := c) (m := m) (by rw [hm]; rfl) rule hrule
        rw [hm, List.cons_append, Rule.longest?_eq_none hstarts] at hk
        cases hk
      · cases List.mem_singleton.mp hrule
        exact Nat.le_of_eq (nameLength?_mark hword k hk)

/-! ## Names and numbers -/

theorem quote_of_mem_all {quote : Char} (h : Rule.text quote ∈ Rule.all) :
    quote = '"' ∨ quote = '\x60' := by
  simpa [Rule.all] using h

/-- A keyword in front of a name is not as long as the name. -/
theorem lt_of_mark_prefix (h : IsName word) (hrest : NameEnd rest) {m : Mark}
    (hfront : m.text.toList <+: word ++ rest) : m.text.toList.length < word.length := by
  by_contra hlong
  have hword := List.prefix_of_prefix_length_le (List.prefix_append word rest) hfront
    (Nat.le_of_not_lt hlong)
  obtain ⟨more, hmore⟩ := hword
  rw [← hmore, List.prefix_append_right_inj] at hfront
  obtain ⟨first, letters, rfl, hfirst, -⟩ := h.shape
  have hisWord : m.isWord = true := by
    unfold Mark.isWord
    rw [← hmore]
    exact hfirst
  cases more with
  | nil =>
    rw [List.append_nil] at hmore
    exact h.ne_mark m hmore.symm
  | cons c more =>
    obtain ⟨behind, rfl⟩ := hfront
    have hc := Mark.forall_isNameRest hisWord c (by rw [← hmore]; simp)
    have hc' : isNameRest c = false := hrest
    rw [hc'] at hc
    cases hc

theorem longestRule?_name (h : IsName word) (hrest : NameEnd rest) :
    longestRule? Rule.all (word ++ rest) = some (.name, word.length) := by
  obtain ⟨first, letters, rfl, hfirst, hletters⟩ := h.shape
  refine longestRule?_of_lt (by decide) (nameLength?_append hfirst hletters hrest) ?_
  intro other hother hne k hk
  have hstarts := Rule.starts_of_longest? hk
  cases other with
  | mark m =>
    obtain ⟨hfront, rfl⟩ := Rule.longest?_mark hk
    exact lt_of_mark_prefix h hrest hfront
  | name => exact absurd rfl hne
  | float | int =>
    rw [isNameStart_eq_false_of_isDigit hstarts] at hfirst
    cases hfirst
  | char =>
    rw [beq_iff_eq.mp hstarts] at hfirst
    cases hfirst
  | text quote =>
    rw [beq_iff_eq.mp hstarts] at hfirst
    rcases quote_of_mem_all hother with rfl | rfl <;> cases hfirst

/-- Only numbers start with a digit. -/
theorem eq_of_starts_digit (h : c.isDigit = true) (hmem : rule ∈ Rule.all)
    (hstarts : rule.starts c = true) : rule = .float ∨ rule = .int := by
  cases rule with
  | mark m =>
    rw [starts_mark_of_isDigit h] at hstarts
    cases hstarts
  | float => exact .inl rfl
  | int => exact .inr rfl
  | name =>
    rw [Rule.starts, isNameStart_eq_false_of_isDigit h] at hstarts
    cases hstarts
  | char =>
    rw [beq_iff_eq.mp hstarts] at h
    cases h
  | text quote =>
    rw [beq_iff_eq.mp hstarts] at h
    rcases quote_of_mem_all hmem with rfl | rfl <;> cases h

theorem longestRule?_int (hword : AllDigits word) (hne : word ≠ []) (hrest : ReceiverEnd rest) :
    longestRule? Rule.all (word ++ rest) = some (.int, word.length) := by
  have hstop : ∀ c ∈ rest.head?, c.isDigit = false := fun c hc => by
    rcases hrest.head? c hc with rfl | rfl | rfl | rfl <;> rfl
  have hcount := countDigits_append hword hstop
  have hsuffix : countSuffix ['l', 'L'] rest = 0 := by
    cases rest with
    | nil => rfl
    | cons c rest => rcases hrest.head? c rfl with rfl | rfl | rfl | rfl <;> rfl
  have haccepts : Rule.int.longest? (word ++ rest) = some word.length := by
    simp only [Rule.longest?, intLength?]
    rw [hcount, if_neg (by simpa using hne), List.drop_left, hsuffix]
    rfl
  refine longestRule?_of_lt (by decide) haccepts fun other hother hint k hk => ?_
  obtain ⟨first, digits, rfl⟩ := List.exists_cons_of_ne_nil hne
  have hfirst := hword first List.mem_cons_self
  rcases eq_of_starts_digit hfirst hother (Rule.starts_of_longest? hk) with rfl | rfl
  · simp only [Rule.longest?, floatLength?] at hk
    rw [hcount, List.drop_left] at hk
    split at hk
    · next digits =>
      have hzero : countDigits digits = 0 := by
        cases digits with
        | nil => rfl
        | cons c digits =>
          refine countDigits_cons_of_not ?_ digits
          by_contra hdigit
          have hstart : isNameStart c = true := hrest
          rw [isNameStart_eq_false_of_isDigit (Bool.eq_true_of_not_eq_false hdigit)] at hstart
          cases hstart
      rw [hzero] at hk
      simp at hk
    · cases hk
  · exact absurd rfl hint

theorem longestRule?_float (hwhole : AllDigits whole) (hfraction : AllDigits fraction)
    (hne : whole ≠ []) (hne' : fraction ≠ []) (hrest : ReceiverEnd rest) :
    longestRule? Rule.all (whole ++ '.' :: fraction ++ rest) =
      some (.float, (whole ++ '.' :: fraction).length) := by
  have hstop : ∀ c ∈ rest.head?, c.isDigit = false := fun c hc => by
    rcases hrest.head? c hc with rfl | rfl | rfl | rfl <;> rfl
  have hpoint : ∀ c ∈ ('.' :: (fraction ++ rest)).head?, c.isDigit = false := by
    rintro c hc
    cases hc
    rfl
  have hcount := countDigits_append hwhole hpoint
  have htail : countExponent rest = 0 ∧ countSuffix ['f', 'F', 'd', 'D'] rest = 0 := by
    cases rest with
    | nil => exact ⟨rfl, rfl⟩
    | cons c rest => rcases hrest.head? c rfl with rfl | rfl | rfl | rfl <;> exact ⟨rfl, rfl⟩
  have happend : whole ++ '.' :: fraction ++ rest = whole ++ '.' :: (fraction ++ rest) := by
    rw [List.append_assoc, List.cons_append]
  rw [happend]
  have haccepts : Rule.float.longest? (whole ++ '.' :: (fraction ++ rest)) =
      some (whole ++ '.' :: fraction).length := by
    simp only [Rule.longest?, floatLength?]
    rw [hcount, List.drop_left]
    simp only
    rw [countDigits_append hfraction hstop, if_neg (by simpa using ⟨hne, hne'⟩), List.drop_left]
    simp only [htail.1, htail.2, Nat.add_zero, List.drop_left, List.length_append,
      List.length_cons]
    congr 1
    omega
  refine longestRule?_of_lt (by decide) haccepts fun other hother hfloat k hk => ?_
  obtain ⟨first, digits, rfl⟩ := List.exists_cons_of_ne_nil hne
  have hfirst := hwhole first List.mem_cons_self
  rcases eq_of_starts_digit hfirst hother (Rule.starts_of_longest? hk) with rfl | rfl
  · exact absurd rfl hfloat
  · simp only [Rule.longest?, intLength?] at hk
    rw [hcount, if_neg (by simp), List.drop_left] at hk
    cases hk
    simp [countSuffix]

end BindingPlan
