import BindingPlan.Proofs.Text.Unbroken
import BindingPlan.Text.Quoted

/-!
# Quoted texts tell where they end

Read from its quote mark on, a quoted text ends at one place only: a character of it is written in
one way, no written character starts with another one, and none starts with the quote mark. So two
quoted texts that start a common text are the same, whatever comes behind them.

Main results:

* `quoteWith_append_inj`: quoting can be undone, also in front of a rest.
-/

namespace BindingPlan

variable {quote c d : Char} {m n : Nat} {x y s t : List Char}

/-! ## Hexadecimal -/

theorem digitChar_inj_of_lt {m n : Nat} (hm : m < 16) (hn : n < 16)
    (h : m.digitChar = n.digitChar) : m = n := by
  have hall : ∀ i < 16, ∀ j < 16, Nat.digitChar i = Nat.digitChar j → i = j := by decide
  exact hall m hm n hn h

theorem hexadecimal_eq (n : Nat) : hexadecimal n =
    if n < 16 then [n.digitChar] else hexadecimal (n / 16) ++ [(n % 16).digitChar] :=
  Nat.toDigits_eq_if (by decide)

theorem exists_digit_of_mem_hexadecimal (h : c ∈ hexadecimal n) :
    ∃ digit < 16, c = digit.digitChar := by
  induction n using Nat.strongRecOn with
  | ind n ih =>
    rw [hexadecimal_eq] at h
    split at h
    · next hn => exact ⟨n, hn, List.mem_singleton.mp h⟩
    · next hn =>
      rcases List.mem_append.mp h with h | h
      · exact ih (n / 16) (by omega) h
      · exact ⟨n % 16, by omega, List.mem_singleton.mp h⟩

theorem brace_notMem_hexadecimal : '\x7d' ∉ hexadecimal n := by
  intro h
  obtain ⟨digit, hdigit, heq⟩ := exists_digit_of_mem_hexadecimal h
  have hall : ∀ i < 16, '\x7d' ≠ Nat.digitChar i := by decide
  exact hall digit hdigit heq

theorem hexadecimal_inj (h : hexadecimal m = hexadecimal n) : m = n := by
  induction m using Nat.strongRecOn generalizing n with
  | ind m ih =>
    -- more than one digit is never one digit
    have hlength : ∀ k digit other, [digit] ≠ hexadecimal k ++ [other] := by
      intro k digit other h
      have hpos : 0 < (hexadecimal k).length := Nat.length_toDigits_pos
      have := congrArg List.length h
      simp only [List.length_append, List.length_singleton] at this
      omega
    rw [hexadecimal_eq m, hexadecimal_eq n] at h
    split at h <;> split at h
    · next hm hn => exact digitChar_inj_of_lt hm hn (List.singleton_inj.mp h)
    · exact (hlength _ _ _ h).elim
    · exact (hlength _ _ _ h.symm).elim
    · obtain ⟨hinit, hlast⟩ := List.append_inj' h rfl
      have hdiv := ih (m / 16) (by omega) hinit
      have hmod := digitChar_inj_of_lt (by omega) (by omega) (List.singleton_inj.mp hlast)
      omega

/-! ## Characters -/

/-- The character that a short escape stands for. -/
def shortValue : Char → Char
  | '0' => '\x00'
  | 't' => '\t'
  | 'r' => '\r'
  | 'n' => '\n'
  | c => c

/-- The two ways to write a character of a quoted text, besides the character itself. -/
inductive WrittenAs (quote c : Char) : List Char → Prop where
  | plain (hq : c ≠ quote) (hb : c ≠ '\\') : WrittenAs quote c [c]
  | short (mark : Char) (hu : mark ≠ 'u') (hc : c = shortValue mark) :
    WrittenAs quote c ['\\', mark]
  | code : WrittenAs quote c (['\\', 'u', '\x7b'] ++ hexadecimal c.toNat ++ ['\x7d'])

theorem writtenAs_escapeChar (h : quote = '"' ∨ quote = '\'') :
    WrittenAs quote c (escapeChar quote c) := by
  unfold escapeChar
  split
  · next hc => exact .short '0' (by decide) hc
  · split
    · next hc => exact .short 't' (by decide) hc
    · split
      · next hc => exact .short 'r' (by decide) hc
      · split
        · next hc => exact .short 'n' (by decide) hc
        · split
          · next hc => exact .short '\\' (by decide) hc
          · next hb =>
            split
            · next hc =>
              subst hc
              rcases h with rfl | rfl
              · exact .short '"' (by decide) rfl
              · exact .short '\'' (by decide) rfl
            · next hq =>
              split
              · exact .plain hq hb
              · exact .code

theorem WrittenAs.append_inj (hs : WrittenAs quote c s) (ht : WrittenAs quote d t)
    (h : s ++ x = t ++ y) : c = d ∧ x = y := by
  cases hs with
  | plain hq hb =>
    cases ht with
    | plain => exact List.cons.inj h
    | short => exact absurd (List.cons.inj h).1 hb
    | code => exact absurd (List.cons.inj h).1 hb
  | short mark hu hc =>
    cases ht with
    | plain hq hb => exact absurd (List.cons.inj h).1.symm hb
    | short mark' _ hd =>
      simp only [List.cons_append, List.nil_append, List.cons.injEq, true_and] at h
      obtain ⟨rfl, h⟩ := h
      exact ⟨hc.trans hd.symm, h⟩
    | code =>
      obtain ⟨-, h⟩ := List.cons.inj h
      exact absurd (List.cons.inj h).1 hu
  | code =>
    cases ht with
    | plain hq hb => exact absurd (List.cons.inj h).1.symm hb
    | short mark hu =>
      obtain ⟨-, h⟩ := List.cons.inj h
      exact absurd (List.cons.inj h).1.symm hu
    | code =>
      simp only [List.append_assoc, List.cons_append, List.nil_append, List.cons.injEq,
        true_and] at h
      obtain ⟨hcode, hrest⟩ :=
        append_cons_inj brace_notMem_hexadecimal brace_notMem_hexadecimal h
      exact ⟨Char.toNat_inj.mp (hexadecimal_inj hcode), hrest⟩

theorem WrittenAs.exists_cons (h : quote = '"' ∨ quote = '\'') (hs : WrittenAs quote c s) :
    ∃ first rest, s = first :: rest ∧ first ≠ quote := by
  have hb : '\\' ≠ quote := by rcases h with rfl | rfl <;> decide
  cases hs with
  | plain hq => exact ⟨_, _, rfl, hq⟩
  | short => exact ⟨_, _, rfl, hb⟩
  | code => exact ⟨_, _, rfl, hb⟩

/-! ## Texts -/

/-- Quoted texts that start a common text are the same, and so is what follows them. -/
theorem quoteWith_append_inj (hq : quote = '"' ∨ quote = '\'')
    (h : quoteWith quote s ++ x = quoteWith quote t ++ y) : s = t ∧ x = y := by
  unfold quoteWith at h
  simp only [List.cons_append, List.cons.injEq, true_and, List.append_assoc, List.nil_append] at h
  induction s generalizing t with
  | nil =>
    cases t with
    | nil => exact ⟨rfl, (List.cons.inj h).2⟩
    | cons d t =>
      obtain ⟨first, rest, heq, hne⟩ := (writtenAs_escapeChar (c := d) hq).exists_cons hq
      simp only [List.flatMap_nil, List.flatMap_cons, heq, List.nil_append, List.cons_append] at h
      exact absurd (List.cons.inj h).1.symm hne
  | cons c s ih =>
    cases t with
    | nil =>
      obtain ⟨first, rest, heq, hne⟩ := (writtenAs_escapeChar (c := c) hq).exists_cons hq
      simp only [List.flatMap_nil, List.flatMap_cons, heq, List.nil_append, List.cons_append] at h
      exact absurd (List.cons.inj h).1 hne
    | cons d t =>
      simp only [List.flatMap_cons, List.append_assoc] at h
      obtain ⟨rfl, hrest⟩ := (writtenAs_escapeChar hq).append_inj (writtenAs_escapeChar hq) h
      obtain ⟨rfl, rfl⟩ := ih hrest
      exact ⟨rfl, rfl⟩

end BindingPlan
