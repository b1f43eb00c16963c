import BindingPlan.Proofs.Decimal.Written
import BindingPlan.Proofs.Key.Expression
import BindingPlan.Proofs.Text.Quoted
import BindingPlan.Proofs.Token.End

/-!
# Keys of variables and literals

The key of a variable or of a literal ends where an operand may end, or where a point and a member
name follow. Within a key, a point is part of a number only if a digit follows.

Main results:

* `Expression.IsAtom.append_inj`: two keys of variables or literals that start a common text are
  keys of one expression.
* `Expression.IsRoot.append_inj`: so are two such keys, or keys of what names of classes start with.
-/

namespace BindingPlan

variable {s t x y text : List Char} {c : Char}

/-! ## Words and numbers -/

theorem IsName.forall_isNameRest (h : IsName text) : ∀ c ∈ text, isNameRest c = true := by
  obtain ⟨first, rest, rfl, hstart, hrest⟩ := h.shape
  intro c hc
  rcases List.mem_cons.mp hc with rfl | hc
  · exact isNameRest_of_isNameStart hstart
  · exact hrest c hc

/-- A name goes on until something that is not part of a name. -/
theorem IsName.append_inj (hs : IsName s) (ht : IsName t) (hx : NameEnd x) (hy : NameEnd y)
    (h : s ++ x = t ++ y) : s = t ∧ x = y := by
  have hunbroken {text : List Char} (h : IsName text) : Unbroken NameEnd text := by
    refine .of_forall fun c hc rest hend => ?_
    have hend : isNameRest c = false := hend
    rw [h.forall_isNameRest c hc] at hend
    cases hend
  exact (hunbroken hs).append_inj (hunbroken ht) hx hy h

namespace Expression

variable {e f : Expression}

/-- A keyword or a name. -/
inductive IsWord : Expression → Prop where
  | null : IsWord (.literal .null)
  | bool (value : Bool) : IsWord (.literal (.bool value))
  | ident {name : String} (h : IsName name.toList) : IsWord (.ident name)

inductive IsNumber : Expression → Prop where
  | int (value : Nat) : IsNumber (.literal (.int value))
  | float {value : Binary64} (h : value.isFinite = true) : IsNumber (.literal (.float value))

inductive IsQuoted : Expression → Prop where
  | text (value : String) : IsQuoted (.literal (.text value))
  | char (value : Char) : IsQuoted (.literal (.char value))

theorem IsWord.forall_isNameRest (h : IsWord e) : ∀ c ∈ e.key.toList, isNameRest c = true := by
  cases h with
  | null => exact List.all_eq_true.mp (by decide)
  | bool value => cases value <;> exact List.all_eq_true.mp (by decide)
  | ident h => exact h.forall_isNameRest

theorem IsWord.exists_cons (h : IsWord e) :
    ∃ c rest, e.key.toList = c :: rest ∧ isNameStart c = true := by
  cases h with
  | null => exact ⟨'n', _, rfl, rfl⟩
  | bool value =>
    cases value with
    | false => exact ⟨'f', _, rfl, rfl⟩
    | true => exact ⟨'t', _, rfl, rfl⟩
  | ident h =>
    obtain ⟨first, rest, heq, hstart, -⟩ := h.shape
    exact ⟨first, rest, heq, hstart⟩

theorem IsWord.unbroken (h : IsWord e) : Unbroken ReceiverEnd e.key.toList :=
  .of_forall fun c hc _ => not_receiverEnd_of_isNameRest (h.forall_isNameRest c hc)

/-- A keyword is no name, and different keywords are different texts. -/
theorem IsWord.eq_of_key_eq (he : IsWord e) (hf : IsWord f) (h : e.key = f.key) : e = f := by
  cases he with
  | null =>
    cases hf with
    | null => rfl
    | bool value => cases value <;> exact absurd h (by decide)
    | ident hname => exact absurd (congrArg String.toList h) (hname.ne_mark .nullWord)
  | bool value =>
    cases hf with
    | null => cases value <;> exact absurd h (by decide)
    | bool other => cases value <;> cases other <;> first | rfl | exact absurd h (by decide)
    | ident hname =>
      cases value with
      | false => exact absurd (congrArg String.toList h) (hname.ne_mark .falseWord)
      | true => exact absurd (congrArg String.toList h) (hname.ne_mark .trueWord)
  | ident hname =>
    cases hf with
    | null => exact absurd (congrArg String.toList h.symm) (hname.ne_mark .nullWord)
    | bool value =>
      cases value with
      | false => exact absurd (congrArg String.toList h.symm) (hname.ne_mark .falseWord)
      | true => exact absurd (congrArg String.toList h.symm) (hname.ne_mark .trueWord)
    | ident hname' => exact congrArg Expression.ident h

theorem toList_key_int (value : Nat) :
    (literal (.int value)).key.toList = Nat.toDigits 10 value :=
  Nat.toList_repr

theorem IsNumber.exists_cons (h : IsNumber e) :
    ∃ c rest, e.key.toList = c :: rest ∧ c.isDigit = true := by
  cases h with
  | int value =>
    obtain ⟨first, rest, heq⟩ := List.exists_cons_of_ne_nil (Nat.toDigits_ne_nil (n := value))
    refine ⟨first, rest, (toList_key_int value).trans heq, ?_⟩
    exact allDigits_toDigits value first (heq ▸ List.mem_cons_self)
  | float h =>
    obtain ⟨_, hreads, -⟩ := Binary64.exists_reads h
    exact hreads.exists_cons

theorem IsNumber.unbroken (h : IsNumber e) : Unbroken ReceiverEnd e.key.toList := by
  cases h with
  | int value =>
    rw [toList_key_int]
    exact .of_forall fun c hc _ =>
      not_receiverEnd_of_isNameRest (isNameRest_of_isDigit (allDigits_toDigits value c hc))
  | float h =>
    obtain ⟨_, hreads, -⟩ := Binary64.exists_reads h
    refine hreads.unbroken (fun c rest hc => ?_) fun c rest hc hend => ?_
    · rcases hc with hc | rfl | rfl
      · exact not_receiverEnd_of_isNameRest (isNameRest_of_isDigit hc)
      · exact not_receiverEnd_of_isNameRest rfl
      · exact not_receiverEnd_cons (by decide) (by decide)
    · rw [ReceiverEnd, isNameStart_eq_false_of_isDigit hc] at hend
      cases hend

/-- An integer has digits only, and different numbers are written differently. -/
theorem IsNumber.eq_of_key_eq (he : IsNumber e) (hf : IsNumber f) (h : e.key = f.key) : e = f := by
  have hmixed {value : Nat} {other : Binary64} (hfinite : other.isFinite = true)
      (h : (literal (.int value)).key = (literal (.float other)).key) : False := by
    obtain ⟨_, hreads, -⟩ := Binary64.exists_reads hfinite
    refine hreads.not_allDigits ?_
    have htext : (other.styledText .literal).toList = Nat.toDigits 10 value := by
      rw [← toList_key_int]
      exact congrArg String.toList h.symm
    rw [htext]
    exact allDigits_toDigits value
  cases he with
  | int value =>
    cases hf with
    | int other =>
      have h := congrArg String.toList h
      rw [toList_key_int, toList_key_int] at h
      rw [toDigits_ten_inj h]
    | float hfinite => exact (hmixed hfinite h).elim
  | float hfinite =>
    cases hf with
    | int other => exact (hmixed hfinite h.symm).elim
    | float hfinite' => rw [Binary64.eq_of_styledText_eq hfinite hfinite' h]

theorem toList_key_text (value : String) :
    (literal (.text value)).key.toList = quoteWith '"' value.toList :=
  String.toList_ofList

theorem toList_key_char (value : Char) :
    (literal (.char value)).key.toList = quoteWith '\'' [value] :=
  String.toList_ofList

theorem IsQuoted.exists_cons (h : IsQuoted e) :
    ∃ c rest, e.key.toList = c :: rest ∧ (c = '"' ∨ c = '\'') := by
  cases h with
  | text value => exact ⟨'"', _, toList_key_text value, .inl rfl⟩
  | char value => exact ⟨'\'', _, toList_key_char value, .inr rfl⟩

theorem IsQuoted.append_inj (he : IsQuoted e) (hf : IsQuoted f)
    (h : e.key.toList ++ x = f.key.toList ++ y) : e = f ∧ x = y := by
  cases he with
  | text value =>
    rw [toList_key_text] at h
    cases hf with
    | text other =>
      rw [toList_key_text] at h
      obtain ⟨hvalue, hrest⟩ := quoteWith_append_inj (.inl rfl) h
      rw [String.toList_inj.mp hvalue]
      exact ⟨rfl, hrest⟩
    | char other =>
      rw [toList_key_char] at h
      exact absurd (List.cons.inj h).1 (by decide)
  | char value =>
    rw [toList_key_char] at h
    cases hf with
    | text other =>
      rw [toList_key_text] at h
      exact absurd (List.cons.inj h).1 (by decide)
    | char other =>
      rw [toList_key_char] at h
      obtain ⟨hvalue, hrest⟩ := quoteWith_append_inj (.inr rfl) h
      rw [List.singleton_inj.mp hvalue]
      exact ⟨rfl, hrest⟩

/-! ## Atoms -/

/-- A variable or a literal. -/
inductive IsAtom (e : Expression) : Prop where
  | word (h : IsWord e)
  | number (h : IsNumber e)
  | quoted (h : IsQuoted e)

theorem IsAtom.exists_cons (h : IsAtom e) : ∃ c rest, e.key.toList = c :: rest ∧
    (isNameStart c = true ∨ c.isDigit = true ∨ c = '"' ∨ c = '\'') := by
  cases h with
  | word h =>
    obtain ⟨c, rest, heq, hc⟩ := h.exists_cons
    exact ⟨c, rest, heq, .inl hc⟩
  | number h =>
    obtain ⟨c, rest, heq, hc⟩ := h.exists_cons
    exact ⟨c, rest, heq, .inr (.inl hc)⟩
  | quoted h =>
    obtain ⟨c, rest, heq, hc⟩ := h.exists_cons
    exact ⟨c, rest, heq, .inr (.inr hc)⟩

/-- Texts with different first characters are different. -/
theorem not_append_eq {p q : Char → Prop} (hpq : ∀ c, p c → q c → False)
    (hs : ∃ c rest, s = c :: rest ∧ p c) (ht : ∃ c rest, t = c :: rest ∧ q c)
    (h : s ++ x = t ++ y) : False := by
  obtain ⟨c, _, rfl, hc⟩ := hs
  obtain ⟨d, _, rfl, hd⟩ := ht
  obtain ⟨rfl, -⟩ := List.cons.inj h
  exact hpq c hc hd

theorem not_quote_of_isNameStart (c : Char) (h : isNameStart c = true) (hq : c = '"' ∨ c = '\'') :
    False := by
  rcases hq with rfl | rfl <;> cases h

theorem not_quote_of_isDigit (c : Char) (h : c.isDigit = true) (hq : c = '"' ∨ c = '\'') :
    False := by
  rcases hq with rfl | rfl <;> cases h

theorem not_isDigit_of_isNameStart (c : Char) (h : isNameStart c = true) (hd : c.isDigit = true) :
    False := by
  rw [isNameStart_eq_false_of_isDigit hd] at h
  cases h

/-- Keys of variables or literals that start a common text, each up to what may follow it, are keys
of one expression. -/
theorem IsAtom.append_inj (he : IsAtom e) (hf : IsAtom f) (hx : ReceiverEnd x) (hy : ReceiverEnd y)
    (h : e.key.toList ++ x = f.key.toList ++ y) : e = f ∧ x = y := by
  cases he with
  | word he =>
    cases hf with
    | word hf =>
      obtain ⟨hkey, hrest⟩ := he.unbroken.append_inj hf.unbroken hx hy h
      exact ⟨he.eq_of_key_eq hf (String.toList_inj.mp hkey), hrest⟩
    | number hf =>
      exact (not_append_eq not_isDigit_of_isNameStart he.exists_cons hf.exists_cons h).elim
    | quoted hf =>
      exact (not_append_eq not_quote_of_isNameStart he.exists_cons hf.exists_cons h).elim
  | number he =>
    cases hf with
    | word hf =>
      exact (not_append_eq not_isDigit_of_isNameStart hf.exists_cons he.exists_cons h.symm).elim
    | number hf =>
      obtain ⟨hkey, hrest⟩ := he.unbroken.append_inj hf.unbroken hx hy h
      exact ⟨he.eq_of_key_eq hf (String.toList_inj.mp hkey), hrest⟩
    | quoted hf =>
      exact (not_append_eq not_quote_of_isDigit he.exists_cons hf.exists_cons h).elim
  | quoted he =>
    cases hf with
    | word hf =>
      exact (not_append_eq not_quote_of_isNameStart hf.exists_cons he.exists_cons h.symm).elim
    | number hf =>
      exact (not_append_eq not_quote_of_isDigit hf.exists_cons he.exists_cons h.symm).elim
    | quoted hf => exact he.append_inj hf h

/-- Named variables and plain literals are of one of these forms. -/
theorem isAtom_ident {name : String} (h : IsName name.toList) : IsAtom (.ident name) :=
  .word (.ident h)

theorem isAtom_literal {value : Literal} (h : (literal value).Plain) : IsAtom (.literal value) := by
  cases value with
  | null => exact .word .null
  | bool value => exact .word (.bool value)
  | int value => exact .number (.int value)
  | float value =>
    refine .number (.float ?_)
    have hne : value ≠ .infinity := fun heq => h (heq ▸ rfl)
    have hbits := value.bits_le
    unfold Binary64.isFinite
    rw [decide_eq_true_eq]
    refine Nat.lt_of_le_of_ne hbits fun heq => hne ?_
    cases value
    cases heq
    rfl
  | text value => exact .quoted (.text value)
  | char value => exact .quoted (.char value)

theorem isName_inf : IsName "inf".toList := by
  refine ⟨⟨'i', ['n', 'f'], rfl, rfl, List.all_eq_true.mp rfl⟩, fun mark => ?_⟩
  cases mark <;> decide

theorem isAtom_ofLiteral (value : Literal) : IsAtom (ofLiteral value) := by
  unfold ofLiteral
  split
  · exact isAtom_ident isName_inf
  · next h => exact isAtom_literal h

/-! ## Roots -/

/-- The key of a variable or of a literal does not start like that of a class. -/
theorem IsAtom.not_static (h : IsAtom e) :
    ¬ "static:".toList <+: e.key.toList := by
  rintro ⟨rest, hrest⟩
  cases h with
  | word h =>
    have hcolon : isNameRest ':' = true := by
      refine h.forall_isNameRest _ ?_
      rw [← hrest]
      exact List.mem_append_left _ (by decide)
    cases hcolon
  | number h =>
    obtain ⟨c, more, heq, hc⟩ := h.exists_cons
    rw [heq] at hrest
    rw [← (List.cons.inj hrest).1] at hc
    cases hc
  | quoted h =>
    obtain ⟨c, more, heq, hc⟩ := h.exists_cons
    rw [heq] at hrest
    rw [← (List.cons.inj hrest).1] at hc
    rcases hc with hc | hc <;> cases hc

/-- A name that an expression may start with: that of a variable, or the first part of the name of a
class with the mark of classes. -/
inductive IsRootName (name : String) : Prop where
  | lexed (h : IsName name.toList)
  | package {first : String} (hname : IsName first.toList) (h : name = Kind.classKey first)

/-- An expression without parts: a variable, a literal, or the first part of the name of a class. -/
inductive IsRoot (e : Expression) : Prop where
  | atom (h : IsAtom e)
  | package {first : String} (hname : IsName first.toList) (h : e = .ident (Kind.classKey first))

theorem isRoot_ident {name : String} (h : IsRootName name) : IsRoot (.ident name) := by
  cases h with
  | lexed h => exact .atom (isAtom_ident h)
  | package hname h => exact .package hname (congrArg ident h)

theorem toList_key_package (first : String) :
    (ident (Kind.classKey first)).key.toList = "static:".toList ++ first.toList :=
  String.toList_append

theorem exists_cons_package (first : String) :
    ∃ c rest, (ident (Kind.classKey first)).key.toList = c :: rest ∧ isNameStart c = true :=
  ⟨'s', _, toList_key_package first, rfl⟩

theorem unbroken_package {first : String} (hname : IsName first.toList) :
    Unbroken ReceiverEnd (ident (Kind.classKey first)).key.toList := by
  rw [toList_key_package]
  refine .of_forall fun c hc _ => ?_
  rcases List.mem_append.mp hc with hc | hc
  · have hmark : "static:".toList.all (fun c => isNameRest c || c == ':') = true := by decide
    have hc := List.all_eq_true.mp hmark c hc
    rw [Bool.or_eq_true, beq_iff_eq] at hc
    rcases hc with hrest | rfl
    · exact not_receiverEnd_of_isNameRest hrest
    · exact not_receiverEnd_cons (by decide) (by decide)
  · exact not_receiverEnd_of_isNameRest (hname.forall_isNameRest c hc)

theorem IsRoot.exists_cons (h : IsRoot e) : ∃ c rest, e.key.toList = c :: rest ∧
    (isNameStart c = true ∨ c.isDigit = true ∨ c = '"' ∨ c = '\'') := by
  cases h with
  | atom h => exact h.exists_cons
  | package _ h =>
    obtain ⟨c, rest, heq, hc⟩ := exists_cons_package _
    exact ⟨c, rest, h ▸ heq, .inl hc⟩

theorem IsAtom.append_ne_package {first : String} (he : IsAtom e) (hname : IsName first.toList)
    (hx : ReceiverEnd x) (hy : ReceiverEnd y) :
    e.key.toList ++ x ≠ (ident (Kind.classKey first)).key.toList ++ y := by
  intro h
  cases he with
  | word he =>
    obtain ⟨hkey, -⟩ := he.unbroken.append_inj (unbroken_package hname) hx hy h
    refine (IsAtom.word he).not_static ?_
    rw [hkey, toList_key_package]
    exact List.prefix_append _ _
  | number he =>
    exact not_append_eq not_isDigit_of_isNameStart (exists_cons_package first) he.exists_cons h.symm
  | quoted he =>
    exact not_append_eq not_quote_of_isNameStart (exists_cons_package first) he.exists_cons h.symm

/-- Keys of roots that start a common text, each up to what may follow it, are keys of one
expression. -/
theorem IsRoot.append_inj (he : IsRoot e) (hf : IsRoot f) (hx : ReceiverEnd x) (hy : ReceiverEnd y)
    (h : e.key.toList ++ x = f.key.toList ++ y) : e = f ∧ x = y := by
  cases he with
  | atom he =>
    cases hf with
    | atom hf => exact he.append_inj hf hx hy h
    | package hname hf => exact absurd (hf ▸ h) (he.append_ne_package hname hx hy)
  | package hname he =>
    cases hf with
    | atom hf => exact absurd (he ▸ h.symm) (hf.append_ne_package hname hy hx)
    | package hname' hf =>
      subst he hf
      obtain ⟨hkey, hrest⟩ :=
        (unbroken_package hname).append_inj (unbroken_package hname') hx hy h
      exact ⟨congrArg ident (String.toList_inj.mp hkey), hrest⟩

end Expression
end BindingPlan
