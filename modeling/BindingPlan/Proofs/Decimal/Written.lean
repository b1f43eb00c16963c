import BindingPlan.Decimal.Written
import BindingPlan.Proofs.Decimal.Shortest
import BindingPlan.Proofs.Text.Unbroken

/-!
# Number literals are written apart

A text with a point or with an exponent stands for one rational. A finite number is written as a
text that stands for a rational of its rounding interval; and as intervals of different numbers are
apart, different finite numbers are written differently.

Main results:

* `Reads.unique`: a text stands for one rational.
* `Binary64.exists_reads`: the text of a finite number stands for a rational that it covers.
* `Binary64.eq_of_styledText_eq`: finite numbers with a common text are equal.
-/

namespace BindingPlan

open Nat (ofDigitChars toDigits)

/-- A text of decimal digits only. -/
def AllDigits (text : List Char) : Prop :=
  ∀ c ∈ text, c.isDigit = true

/-- Digits behind a point, or nothing. -/
def pointText : List Char → List Char
  | [] => []
  | digits => '.' :: digits

/-- An exponent, with a sign only if it is negative. -/
def exponentText (exponent : Int) : List Char :=
  (if exponent < 0 then ['-'] else []) ++ toDigits 10 exponent.natAbs

/-- The text stands for the rational: either it has a point between digits, or it has one digit,
maybe more of them behind a point, and an exponent. -/
inductive Reads : List Char → ℚ → Prop where
  | pointed {whole fraction : List Char} (hw : AllDigits whole) (hf : AllDigits fraction)
    (hwhole : whole ≠ []) (hfraction : fraction ≠ []) :
    Reads (whole ++ '.' :: fraction)
      (ofDigitChars 10 (whole ++ fraction) 0 / (10 : ℚ) ^ fraction.length)
  | scientific {first : Char} {digits : List Char} (h : AllDigits (first :: digits))
    (exponent : Int) :
    Reads (first :: (pointText digits ++ 'e' :: exponentText exponent))
      (ofDigitChars 10 (first :: digits) 0 * (10 : ℚ) ^ (exponent - digits.length))

variable {text s t : List Char} {value other : ℚ} {d : Decimal}

/-! ## Digits -/

theorem AllDigits.append (hs : AllDigits s) (ht : AllDigits t) : AllDigits (s ++ t) := by
  intro c hc
  rcases List.mem_append.mp hc with hc | hc
  · exact hs c hc
  · exact ht c hc

theorem AllDigits.notMem {c : Char} (h : AllDigits text) (hc : c.isDigit = false) : c ∉ text := by
  intro hmem
  rw [h c hmem] at hc
  cases hc

theorem allDigits_toDigits (n : Nat) : AllDigits (toDigits 10 n) :=
  fun _ hc => Nat.isDigit_of_mem_toDigits (by decide) (by decide) hc

theorem allDigits_replicate (n : Nat) : AllDigits (List.replicate n '0') := by
  intro c hc
  rw [List.eq_of_mem_replicate hc]
  rfl

theorem toDigits_ten_inj {m n : Nat} (h : toDigits 10 m = toDigits 10 n) : m = n := by
  calc m = ofDigitChars 10 (toDigits 10 m) 0 := Nat.ofDigitChars_ten_toDigits.symm
    _ = ofDigitChars 10 (toDigits 10 n) 0 := by rw [h]
    _ = n := Nat.ofDigitChars_ten_toDigits

/-! ## One rational for a text -/

theorem pointText_inj (h : pointText s = pointText t) : s = t := by
  cases s with
  | nil =>
    cases t with
    | nil => rfl
    | cons d t => cases h
  | cons c s =>
    cases t with
    | nil => cases h
    | cons d t => exact (List.cons.inj h).2

theorem exponentText_inj {m n : Int} (h : exponentText m = exponentText n) : m = n := by
  have hsign (k : Nat) (rest : List Char) : toDigits 10 k ≠ '-' :: rest := by
    intro heq
    have := allDigits_toDigits k '-' (heq ▸ List.mem_cons_self)
    cases this
  unfold exponentText at h
  split at h <;> split at h
  · have := toDigits_ten_inj (List.cons.inj h).2
    omega
  · exact absurd h.symm (hsign _ _)
  · exact absurd h (hsign _ _)
  · have := toDigits_ten_inj h
    omega

theorem e_notMem_pointText (h : AllDigits s) : 'e' ∉ pointText s := by
  cases s with
  | nil => exact List.not_mem_nil
  | cons c s =>
    intro hmem
    rcases List.mem_cons.mp hmem with hmem | hmem
    · cases hmem
    · exact h.notMem rfl hmem

/-- A text with a point only has no exponent. -/
theorem e_notMem_pointed (hs : AllDigits s) (ht : AllDigits t) : 'e' ∉ s ++ '.' :: t := by
  intro hmem
  rcases List.mem_append.mp hmem with hmem | hmem
  · exact hs.notMem rfl hmem
  · rcases List.mem_cons.mp hmem with hmem | hmem
    · cases hmem
    · exact ht.notMem rfl hmem

/-- A text stands for one rational. -/
theorem Reads.unique (h : Reads text value) (h' : Reads text other) : value = other := by
  cases h with
  | @pointed whole fraction hw hf =>
    generalize htext : whole ++ '.' :: fraction = text at h'
    cases h' with
    | pointed hw' hf' =>
      obtain ⟨rfl, rfl⟩ := append_cons_inj (hw.notMem rfl) (hw'.notMem rfl) htext
      rfl
    | scientific h' exponent =>
      refine absurd ?_ (e_notMem_pointed hw hf)
      rw [htext]
      simp
  | @scientific first digits h exponent =>
    generalize htext : first :: (pointText digits ++ 'e' :: exponentText exponent) = text at h'
    cases h' with
    | @pointed whole fraction hw hf =>
      refine absurd ?_ (e_notMem_pointed hw hf)
      rw [← htext]
      simp
    | scientific h' exponent' =>
      obtain ⟨rfl, hrest⟩ := List.cons.inj htext
      have hdigits := e_notMem_pointText fun c hc => h c (List.mem_cons_of_mem _ hc)
      have hdigits' := e_notMem_pointText fun c hc => h' c (List.mem_cons_of_mem _ hc)
      obtain ⟨hpoint, hexponent⟩ := append_cons_inj hdigits hdigits' hrest
      rw [pointText_inj hpoint, exponentText_inj hexponent]

/-! ## The shape of number texts -/

theorem Reads.exists_cons (h : Reads text value) :
    ∃ first rest, text = first :: rest ∧ first.isDigit = true := by
  cases h with
  | @pointed whole fraction hw _ hne =>
    obtain ⟨first, rest, rfl⟩ := List.exists_cons_of_ne_nil hne
    exact ⟨first, _, rfl, hw first List.mem_cons_self⟩
  | scientific h => exact ⟨_, _, rfl, h _ List.mem_cons_self⟩

theorem Reads.not_allDigits (h : Reads text value) : ¬ AllDigits text := by
  intro hdigits
  cases h with
  | pointed => exact hdigits.notMem (c := '.') rfl (by simp)
  | scientific => exact hdigits.notMem (c := 'e') rfl (by simp)

/-- What starts with neither a digit nor a part of an exponent nor a fraction starts at no place
inside of a number text. -/
theorem Reads.unbroken {ends : List Char → Prop}
    (hchar : ∀ c rest, c.isDigit = true ∨ c = 'e' ∨ c = '-' → ¬ ends (c :: rest))
    (hpoint : ∀ c rest, c.isDigit = true → ¬ ends ('.' :: c :: rest)) (h : Reads text value) :
    Unbroken ends text := by
  have hdigits {digits : List Char} (h : AllDigits digits) :
      ∀ c ∈ digits, ∀ rest, ¬ ends (c :: rest) := fun c hc rest => hchar c rest (.inl (h c hc))
  have hfraction {digits tail : List Char} (h : AllDigits digits) (hne : digits ≠ [])
      (htail : Unbroken ends tail) : Unbroken ends ('.' :: (digits ++ tail)) := by
    refine .cons ?_ (.append (hdigits h) htail)
    obtain ⟨first, rest, rfl⟩ := List.exists_cons_of_ne_nil hne
    exact fun _ => hpoint first _ (h first List.mem_cons_self)
  cases h with
  | pointed hw hf _ hne =>
    have hfraction := hfraction hf hne unbroken_nil
    rw [List.append_nil] at hfraction
    exact .append (hdigits hw) hfraction
  | @scientific first digits h exponent =>
    have hexponent : Unbroken ends ('e' :: exponentText exponent) := by
      refine .cons (fun _ => hchar _ _ (.inr (.inl rfl))) (.append ?_ (.of_forall ?_))
      · intro c hc rest
        split at hc
        · exact hchar c rest (.inr (.inr (List.mem_singleton.mp hc)))
        · exact absurd hc List.not_mem_nil
      · exact hdigits (allDigits_toDigits _)
    refine .cons (fun _ => hchar _ _ (.inl (h first List.mem_cons_self))) ?_
    cases digits with
    | nil => exact hexponent
    | cons second digits =>
      exact hfraction (fun c hc => h c (List.mem_cons_of_mem _ hc)) (List.cons_ne_nil _ _) hexponent

/-! ## Decimals as texts -/

namespace Decimal

/-- The digits before and after the point are those of the decimal, with zeros around them. -/
theorem exists_parts (d : Decimal) : ∃ whole fraction, d.parts = (whole, fraction) ∧
    AllDigits whole ∧ AllDigits fraction ∧ whole ≠ [] ∧
      d.value = ofDigitChars 10 (whole ++ fraction) 0 / (10 : ℚ) ^ fraction.length := by
  have hdigits := allDigits_toDigits d.digits
  unfold parts value
  dsimp only
  split
  · next hexponent =>
    refine ⟨_, _, rfl, hdigits.append (allDigits_replicate _), fun _ h => absurd h List.not_mem_nil,
      by simp [Nat.toDigits_ne_nil], ?_⟩
    obtain ⟨n, hn⟩ := Int.eq_ofNat_of_zero_le hexponent
    rw [List.append_nil, Nat.ofDigitChars_append, Nat.ofDigitChars_ten_toDigits,
      Nat.ofDigitChars_replicate_zero, hn]
    simp [mul_comm]
  · next hexponent =>
    obtain ⟨n, hn⟩ : ∃ n : Nat, d.exponent = -(n : Int) := ⟨(-d.exponent).toNat, by omega⟩
    have hshift : (-d.exponent).toNat = n := by omega
    rw [hshift, hn, zpow_neg, zpow_natCast, ← div_eq_mul_inv]
    split
    · next hlong =>
      refine ⟨_, _, rfl, fun c hc => hdigits c (List.mem_of_mem_take hc),
        fun c hc => hdigits c (List.mem_of_mem_drop hc), ?_, ?_⟩
      · rw [ne_eq, List.take_eq_nil_iff]
        rintro (hzero | hnil)
        · omega
        · exact Nat.toDigits_ne_nil hnil
      · rw [List.take_append_drop, Nat.ofDigitChars_ten_toDigits, List.length_drop]
        congr 2
        omega
    · next hshort =>
      refine ⟨_, _, rfl, allDigits_replicate 1, (allDigits_replicate _).append hdigits,
        List.cons_ne_nil _ _, ?_⟩
      have hzeros : ['0'] ++ (List.replicate (n - (toDigits 10 d.digits).length) '0' ++
          toDigits 10 d.digits) =
          List.replicate (n - (toDigits 10 d.digits).length + 1) '0' ++ toDigits 10 d.digits := by
        rw [← List.append_assoc, List.replicate_succ]
        rfl
      rw [hzeros, Nat.ofDigitChars_append, Nat.ofDigitChars_replicate_zero, Nat.mul_zero,
        Nat.ofDigitChars_ten_toDigits, List.length_append, List.length_replicate,
        Nat.sub_add_cancel (by omega)]

theorem reads_pointed (d : Decimal) : Reads d.pointed d.value := by
  obtain ⟨whole, fraction, hparts, hw, hf, hne, hvalue⟩ := d.exists_parts
  unfold pointed
  rw [hparts, hvalue]
  cases fraction with
  | nil =>
    -- a whole number gets a zero behind the point
    have hreads := Reads.pointed hw (allDigits_replicate 1) hne (List.cons_ne_nil _ _)
    rw [Nat.ofDigitChars_append, Nat.ofDigitChars_replicate_zero] at hreads
    have hzero : ((10 ^ 1 * ofDigitChars 10 whole 0 : ℕ) : ℚ) / 10 ^ [('0')].length =
        ofDigitChars 10 (whole ++ []) 0 / 10 ^ ([] : List Char).length := by
      rw [List.append_nil]
      simp
    rw [← hzero]
    exact hreads
  | cons c fraction => exact .pointed hw hf hne (List.cons_ne_nil _ _)

theorem reads_scientific (d : Decimal) : Reads (d.scientific []) d.value := by
  have hdigits := allDigits_toDigits d.digits
  have hne := Nat.toDigits_ne_nil (n := d.digits) (b := 10)
  have hvalue : d.value = ofDigitChars 10 (toDigits 10 d.digits) 0 * (10 : ℚ) ^ d.exponent := by
    rw [Nat.ofDigitChars_ten_toDigits]
    rfl
  rw [hvalue]
  unfold scientific leadingExponent digitCount
  generalize toDigits 10 d.digits = digits at *
  obtain _ | ⟨first, digits⟩ := digits
  · exact absurd rfl hne
  · have hexponent : ((first :: digits).length : Int) + d.exponent - 1 - digits.length =
        d.exponent := by
      rw [List.length_cons]
      push_cast
      ring
    have hreads := Reads.scientific hdigits (((first :: digits).length : Int) + d.exponent - 1)
    rw [hexponent] at hreads
    cases digits with
    | nil => exact hreads
    | cons second digits => exact hreads

end Decimal

/-! ## Numbers as texts -/

namespace Binary64

theorem numerator_pos {x : Binary64} (h : x.isZero = false) : 0 < x.numerator := by
  have hbits : x.bits ≠ 0 := by
    simpa [isZero] using h
  refine Nat.mul_pos ?_ (Nat.pow_pos (by decide))
  unfold mantissa leadingBit
  split <;> omega

/-- The text of a finite number stands for a rational of its rounding interval. -/
theorem exists_reads {x : Binary64} (h : x.isFinite = true) :
    ∃ value, Reads (x.styledText .literal).toList value ∧ x.Covers value := by
  unfold styledText
  rw [h, Bool.not_true, if_neg Bool.false_ne_true]
  cases hzero : x.isZero with
  | true =>
    refine ⟨0, ?_, covers_zero hzero⟩
    have hzero : AllDigits ['0'] := allDigits_replicate 1
    have hreads := Reads.pointed hzero hzero (List.cons_ne_nil _ _) (List.cons_ne_nil _ _)
    have hvalue : ((ofDigitChars 10 ['0', '0'] 0 : ℕ) : ℚ) / 10 ^ ['0'].length = 0 := by
      simp [Nat.ofDigitChars_cons]
    have htext : "0.0".toList = ['0'] ++ '.' :: ['0'] := by decide
    rw [if_pos rfl, htext, ← hvalue]
    exact hreads
  | false =>
    refine ⟨(x.shortest .upper).value, ?_, covers_shortest (numerator_pos hzero)⟩
    rw [if_neg Bool.false_ne_true, String.toList_ofList]
    unfold NumberStyle.write
    split
    · exact Decimal.reads_pointed _
    · exact Decimal.reads_scientific _

/-- Finite numbers with a common text are equal. -/
theorem eq_of_styledText_eq {x y : Binary64} (hx : x.isFinite = true) (hy : y.isFinite = true)
    (h : x.styledText .literal = y.styledText .literal) : x = y := by
  obtain ⟨value, hreads, hcovers⟩ := exists_reads hx
  obtain ⟨other, hreads', hcovers'⟩ := exists_reads hy
  rw [← h] at hreads'
  rw [hreads'.unique hreads] at hcovers'
  exact eq_of_covers hcovers hcovers'

end Binary64
end BindingPlan
