import BindingPlan.Proofs.Key.Atom

/-!
# Keys of plain expressions are their own

The key of a plain expression can be read in one way. It starts with the operators in front; then
comes the key of a variable or a literal, the first part of the name of a class, or a key in
parentheses; and then come the accesses, each with the keys of its arguments. Each of these parts
ends where the next one starts, so that two keys that start a common text agree part by part.

Main results:

* `Expression.eq_of_key_eq`: plain expressions with a common key are equal.
* `Expression.key_eq_iff`: expressions have a common key if and only if hoisting makes them equal.
-/

namespace BindingPlan
namespace Expression

/-! ## Proper expressions -/

mutual

/-- Names of members are names that the lexer gives, and so are those of variables and the first
parts of the names of classes. -/
def Named : Expression → Prop
  | .literal _ => True
  | .ident name => IsRootName name
  | .field receiver name => receiver.Named ∧ IsName name.toList
  | .call target name args => target.Named ∧ IsName name.toList ∧ NamedAll args
  | .unary _ operand => operand.Named
  | .binary _ lhs rhs => lhs.Named ∧ rhs.Named
  | .ternary predicate ifTrue ifFalse => predicate.Named ∧ ifTrue.Named ∧ ifFalse.Named

def NamedAll : List Expression → Prop
  | [] => True
  | e :: es => e.Named ∧ NamedAll es

end

/-- A plain expression over names that the lexer gives. -/
structure Proper (e : Expression) : Prop where
  plain : e.Plain
  named : e.Named

end Expression

/-! ## Operators -/

theorem BinaryOp.symbol_inj {op other : BinaryOp} (h : op.symbol = other.symbol) : op = other := by
  rcases op with ⟨_ | _ | _ | _ | _⟩ | ⟨_ | _ | _ | _ | _ | _⟩ | ⟨_ | _⟩ <;>
    rcases other with ⟨_ | _ | _ | _ | _⟩ | ⟨_ | _ | _ | _ | _ | _⟩ | ⟨_ | _⟩ <;>
    first | rfl | exact absurd h (by decide)

theorem BinaryOp.space_notMem_symbol (op : BinaryOp) : ' ' ∉ op.symbol.toList := by
  rcases op with ⟨_ | _ | _ | _ | _⟩ | ⟨_ | _ | _ | _ | _ | _⟩ | ⟨_ | _⟩ <;> decide

theorem BinaryOp.symbol_ne_question (op : BinaryOp) : op.symbol.toList ≠ ['?'] := by
  rcases op with ⟨_ | _ | _ | _ | _⟩ | ⟨_ | _ | _ | _ | _ | _⟩ | ⟨_ | _⟩ <;> decide

namespace Expression

variable {e f : Expression} {es fs : List Expression} {a : Access} {as bs : List Access}
  {x y : List Char}

/-! ## Texts of keys -/

/-- The keys of arguments with commas between them. -/
def argsText (es : List Expression) : List Char :=
  (", ".intercalate (keys es)).toList

/-- The keys of the arguments that follow another one. -/
def moreArgsText : List Expression → List Char
  | [] => []
  | es => ',' :: ' ' :: argsText es

theorem argsText_cons (e : Expression) (es : List Expression) :
    argsText (e :: es) = e.key.toList ++ moreArgsText es := by
  cases es with
  | nil => simp [argsText, moreArgsText, keys]
  | cons f es => simp [argsText, moreArgsText, keys]

def Access.text : Access → List Char
  | .field name => '.' :: name.toList
  | .call name args => '.' :: (name.toList ++ '(' :: (argsText args ++ [')']))

def accessesText (as : List Access) : List Char :=
  as.flatMap Access.text

theorem toList_key_of (receiver : Expression) (a : Access) :
    (a.of receiver).key.toList = receiver.key.toList ++ a.text := by
  cases a <;> simp [Access.of, key, Kind.key, Access.text, argsText]

theorem key_binary_append (op : BinaryOp) (lhs rhs : Expression) (x : List Char) :
    (binary op lhs rhs).key.toList ++ x =
      '(' :: (lhs.key.toList ++ ' ' :: (op.symbol.toList ++ ' ' ::
        (rhs.key.toList ++ ')' :: x))) := by
  simp [key, Kind.key]

theorem key_ternary_append (predicate ifTrue ifFalse : Expression) (x : List Char) :
    (ternary predicate ifTrue ifFalse).key.toList ++ x =
      '(' :: (predicate.key.toList ++ ' ' :: (['?'] ++ ' ' :: (ifTrue.key.toList ++
        ' ' :: ':' :: ' ' :: (ifFalse.key.toList ++ ')' :: x)))) := by
  simp [key, Kind.key]

theorem toList_key_unary (op : UnaryOp) (operand : Expression) :
    (unary op operand).key.toList = op.symbol.toList ++ operand.key.toList := by
  rw [key_unary, String.toList_append]

/-! ## Receivers and accesses -/

/-- The innermost receiver and the accesses to it, in front of those that are given. -/
def split : Expression → List Access → Expression × List Access
  | .field receiver name, as => receiver.split (.field name :: as)
  | .call target name args, as => target.split (.call name args :: as)
  | e, as => (e, as)

/-- An expression that is no access. -/
inductive IsHead : Expression → Prop where
  | root {e : Expression} (h : IsRoot e) : IsHead e
  | binary (op : BinaryOp) (lhs rhs : Expression) : IsHead (.binary op lhs rhs)
  | ternary (predicate ifTrue ifFalse : Expression) : IsHead (.ternary predicate ifTrue ifFalse)

theorem foldl_of_split (e : Expression) (as : List Access) :
    (e.split as).2.foldl Access.of (e.split as).1 = as.foldl Access.of e := by
  fun_induction split e as with
  | case1 receiver name as ih => exact ih
  | case2 target name args as ih => exact ih
  | case3 => rfl

theorem toList_key_split (e : Expression) (as : List Access) :
    (e.split as).1.key.toList ++ accessesText (e.split as).2 =
      e.key.toList ++ accessesText as := by
  fun_induction split e as with
  | case1 receiver name as ih =>
    have hkey := toList_key_of receiver (.field name)
    simp only [Access.of] at hkey
    rw [ih, hkey, List.append_assoc]
    rfl
  | case2 target name args as ih =>
    have hkey := toList_key_of target (.call name args)
    simp only [Access.of] at hkey
    rw [ih, hkey, List.append_assoc]
    rfl
  | case3 => rfl

def Access.args : Access → List Expression
  | .field _ => []
  | .call _ args => args

def Access.name : Access → String
  | .field name | .call name _ => name

/-- The member has a name, and the arguments are proper. -/
structure Access.Proper (a : Access) : Prop where
  isName : IsName a.name.toList
  args : ∀ e ∈ a.args, e.Proper

theorem plain_of_mem_plainAll (h : PlainAll es) (he : e ∈ es) : e.Plain := by
  induction es with
  | nil => cases he
  | cons head es ih =>
    rcases List.mem_cons.mp he with rfl | he
    · exact h.1
    · exact ih h.2 he

theorem named_of_mem_namedAll (h : NamedAll es) (he : e ∈ es) : e.Named := by
  induction es with
  | nil => cases he
  | cons head es ih =>
    rcases List.mem_cons.mp he with rfl | he
    · exact h.1
    · exact ih h.2 he

theorem Proper.receiver {name : String} (h : (field e name).Proper) :
    e.Proper ∧ (Access.field name).Proper :=
  ⟨⟨h.plain.2, h.named.1⟩, ⟨h.named.2, fun _ he => absurd he List.not_mem_nil⟩⟩

theorem Proper.target {name : String} (h : (call e name es).Proper) :
    e.Proper ∧ (Access.call name es).Proper :=
  ⟨⟨h.plain.2.1, h.named.1⟩, ⟨h.named.2.1, fun _ harg =>
    ⟨plain_of_mem_plainAll h.plain.2.2 harg, named_of_mem_namedAll h.named.2.2 harg⟩⟩⟩

/-- The parts of a split expression are proper, and arguments are smaller than the expression. -/
theorem split_proper (he : e.Proper) (hunary : e.isUnary = false) (as : List Access) :
    (e.split as).1.Proper ∧ IsHead (e.split as).1 ∧ sizeOf (e.split as).1 ≤ sizeOf e ∧
      ∀ a ∈ (e.split as).2, a ∈ as ∨ (a.Proper ∧ ∀ arg ∈ a.args, sizeOf arg < sizeOf e) := by
  fun_induction split e as with
  | case1 receiver name as ih =>
    obtain ⟨hreceiver, haccess⟩ := he.receiver
    obtain ⟨hproper, hhead, hsize, haccesses⟩ := ih hreceiver he.plain.1
    refine ⟨hproper, hhead, ?_, fun a ha => ?_⟩
    · simp only [field.sizeOf_spec]
      omega
    · rcases haccesses a ha with ha | ⟨ha, hargs⟩
      · rcases List.mem_cons.mp ha with rfl | ha
        · exact .inr ⟨haccess, fun _ harg => absurd harg List.not_mem_nil⟩
        · exact .inl ha
      · refine .inr ⟨ha, fun arg harg => ?_⟩
        have := hargs arg harg
        simp only [field.sizeOf_spec]
        omega
  | case2 target name args as ih =>
    obtain ⟨htarget, haccess⟩ := he.target
    obtain ⟨hproper, hhead, hsize, haccesses⟩ := ih htarget he.plain.1
    refine ⟨hproper, hhead, ?_, fun a ha => ?_⟩
    · simp only [call.sizeOf_spec]
      omega
    · rcases haccesses a ha with ha | ⟨ha, hargs⟩
      · rcases List.mem_cons.mp ha with rfl | ha
        · refine .inr ⟨haccess, fun arg harg => ?_⟩
          have := List.sizeOf_lt_of_mem harg
          simp only [call.sizeOf_spec, Access.args] at *
          omega
        · exact .inl ha
      · refine .inr ⟨ha, fun arg harg => ?_⟩
        have := hargs arg harg
        simp only [call.sizeOf_spec]
        omega
  | case3 e as hfield hcall =>
    refine ⟨he, ?_, Nat.le_refl _, fun a ha => .inl ha⟩
    cases e with
    | literal value => exact .root (.atom (isAtom_literal he.plain))
    | ident name => exact .root (isRoot_ident he.named)
    | field receiver name => exact (hfield receiver name rfl).elim
    | call target name args => exact (hcall target name args rfl).elim
    | unary op operand => cases hunary
    | binary op lhs rhs => exact .binary op lhs rhs
    | ternary predicate ifTrue ifFalse => exact .ternary predicate ifTrue ifFalse

/-! ## First characters -/

theorem IsHead.exists_cons (h : IsHead e) : ∃ c rest, e.key.toList = c :: rest ∧
    (isNameStart c = true ∨ c.isDigit = true ∨ c = '"' ∨ c = '\'' ∨ c = '(') := by
  cases h with
  | root h =>
    obtain ⟨c, rest, heq, hc⟩ := h.exists_cons
    exact ⟨c, rest, heq, hc.imp_right (Or.imp_right (Or.imp_right .inl))⟩
  | binary op lhs rhs =>
    have hkey := key_binary_append op lhs rhs []
    rw [List.append_nil] at hkey
    exact ⟨'(', _, hkey, by simp⟩
  | ternary predicate ifTrue ifFalse =>
    have hkey := key_ternary_append predicate ifTrue ifFalse []
    rw [List.append_nil] at hkey
    exact ⟨'(', _, hkey, by simp⟩

/-- A key with no operator in front starts like the key of its innermost receiver. -/
theorem Proper.exists_cons (h : e.Proper) (hunary : e.isUnary = false) :
    ∃ c rest, e.key.toList = c :: rest ∧
      (isNameStart c = true ∨ c.isDigit = true ∨ c = '"' ∨ c = '\'' ∨ c = '(') := by
  obtain ⟨-, hhead, -, -⟩ := split_proper h hunary []
  obtain ⟨c, rest, heq, hc⟩ := hhead.exists_cons
  have hsplit := toList_key_split e []
  rw [heq, accessesText, accessesText, List.flatMap_nil, List.append_nil] at hsplit
  exact ⟨c, _, hsplit.symm, hc⟩

theorem Proper.operand {op : UnaryOp} (h : (unary op e).Proper) : e.Proper :=
  ⟨h.plain, h.named⟩

/-- No key starts with a closing parenthesis. -/
theorem Proper.not_close_cons (h : e.Proper) : e.key.toList ++ x ≠ ')' :: y := by
  intro heq
  cases hunary : e.isUnary with
  | true =>
    cases e with
    | unary op operand =>
      rw [toList_key_unary] at heq
      cases op with
      | not => exact absurd (List.cons.inj heq).1 (by decide)
      | neg => exact absurd (List.cons.inj heq).1 (by decide)
    | _ => cases hunary
  | false =>
    obtain ⟨c, rest, hkey, hc⟩ := h.exists_cons hunary
    rw [hkey] at heq
    obtain ⟨rfl, -⟩ := List.cons.inj heq
    rcases hc with hc | hc | hc | hc | hc <;> cases hc

/-- A key with an operator in front is no beginning of one without. -/
theorem Proper.not_unary_append {op : UnaryOp} (h : f.Proper) (hunary : f.isUnary = false) :
    (unary op e).key.toList ++ x ≠ f.key.toList ++ y := by
  intro heq
  obtain ⟨c, rest, hkey, hc⟩ := h.exists_cons hunary
  rw [toList_key_unary, hkey] at heq
  cases op with
  | not =>
    obtain ⟨rfl, -⟩ := List.cons.inj heq
    rcases hc with hc | hc | hc | hc | hc <;> cases hc
  | neg =>
    obtain ⟨rfl, -⟩ := List.cons.inj heq
    rcases hc with hc | hc | hc | hc | hc <;> cases hc

/-! ## Parts of keys -/

/-- No other proper expression has a key that starts a text with the key of this one, each up to
what may follow an operand. -/
structure Determined (e : Expression) : Prop where
  proper : e.Proper
  append_inj : ∀ {f x y}, f.Proper → OperandEnd x → OperandEnd y →
    e.key.toList ++ x = f.key.toList ++ y → e = f ∧ x = y

theorem operandEnd_moreArgsText (es : List Expression) (x : List Char) :
    OperandEnd (moreArgsText es ++ ')' :: x) := by
  cases es with
  | nil => exact .inr (.inl rfl)
  | cons e es => exact .inr (.inr rfl)

theorem argsText_append_inj (hes : ∀ e ∈ es, e.Determined) (hfs : ∀ f ∈ fs, f.Proper)
    (h : argsText es ++ ')' :: x = argsText fs ++ ')' :: y) : es = fs ∧ x = y := by
  induction es generalizing fs with
  | nil =>
    cases fs with
    | nil => exact ⟨rfl, (List.cons.inj h).2⟩
    | cons f fs =>
      rw [argsText_cons, List.append_assoc] at h
      exact absurd h.symm (hfs f List.mem_cons_self).not_close_cons
  | cons e es ih =>
    have he := hes e List.mem_cons_self
    cases fs with
    | nil =>
      rw [argsText_cons, List.append_assoc] at h
      exact absurd h he.proper.not_close_cons
    | cons f fs =>
      rw [argsText_cons, argsText_cons, List.append_assoc, List.append_assoc] at h
      obtain ⟨rfl, hmore⟩ := he.append_inj (hfs f List.mem_cons_self)
        (operandEnd_moreArgsText es x) (operandEnd_moreArgsText fs y) h
      have hes' := fun e he => hes e (List.mem_cons_of_mem _ he)
      have hfs' := fun f hf => hfs f (List.mem_cons_of_mem _ hf)
      -- either both lists end here, or both go on behind a comma
      obtain _ | ⟨e', es⟩ := es <;> obtain _ | ⟨f', fs⟩ := fs
      · exact ⟨rfl, (List.cons.inj hmore).2⟩
      · exact absurd (List.cons.inj hmore).1 (by decide)
      · exact absurd (List.cons.inj hmore).1 (by decide)
      · obtain ⟨hrest, hx⟩ := ih hes' hfs' (List.cons.inj (List.cons.inj hmore).2).2
        rw [hrest]
        exact ⟨rfl, hx⟩

theorem nameEnd_accessesText (as : List Access) (hx : OperandEnd x) :
    NameEnd (accessesText as ++ x) := by
  cases as with
  | nil => exact hx.nameEnd
  | cons a as => cases a <;> rfl

theorem nameEnd_open : NameEnd ('(' :: x) :=
  rfl

/-- What follows the name of a field is no opening parenthesis. -/
theorem accessesText_ne_open (hx : OperandEnd x) : accessesText as ++ x ≠ '(' :: y := by
  intro h
  cases as with
  | nil =>
    have hx : OperandEnd ('(' :: y) := h ▸ hx
    rcases hx with hx | hx | hx <;> cases hx
  | cons a as => cases a <;> exact absurd (List.cons.inj h).1 (by decide)

theorem text_field_append (name : String) (x : List Char) :
    (Access.field name).text ++ x = '.' :: (name.toList ++ x) :=
  rfl

theorem text_call_append (name : String) (args : List Expression) (x : List Char) :
    (Access.call name args).text ++ x =
      '.' :: (name.toList ++ '(' :: (argsText args ++ ')' :: x)) := by
  simp [Access.text]

/-- An access is read off its text if what follows is neither the rest of a name nor arguments. -/
theorem text_append_inj {a b : Access} (ha : a.Proper) (hargs : ∀ e ∈ a.args, e.Determined)
    (hb : b.Proper) (hx : NameEnd x) (hy : NameEnd y) (hx' : ∀ z, x ≠ '(' :: z)
    (hy' : ∀ z, y ≠ '(' :: z) (h : a.text ++ x = b.text ++ y) : a = b ∧ x = y := by
  cases a with
  | field name =>
    rw [text_field_append] at h
    cases b with
    | field name' =>
      rw [text_field_append] at h
      obtain ⟨hname, hrest⟩ := ha.isName.append_inj hb.isName hx hy (List.cons.inj h).2
      obtain rfl : name = name' := String.toList_inj.mp hname
      exact ⟨rfl, hrest⟩
    | call name' args' =>
      rw [text_call_append] at h
      obtain ⟨-, hrest⟩ := ha.isName.append_inj hb.isName hx nameEnd_open (List.cons.inj h).2
      exact absurd hrest (hx' _)
  | call name args =>
    rw [text_call_append] at h
    cases b with
    | field name' =>
      rw [text_field_append] at h
      obtain ⟨-, hrest⟩ := ha.isName.append_inj hb.isName nameEnd_open hy (List.cons.inj h).2
      exact absurd hrest.symm (hy' _)
    | call name' args' =>
      rw [text_call_append] at h
      obtain ⟨hname, hopen⟩ := ha.isName.append_inj hb.isName nameEnd_open nameEnd_open
        (List.cons.inj h).2
      obtain ⟨rfl, hrest⟩ := argsText_append_inj hargs hb.args (List.cons.inj hopen).2
      obtain rfl : name = name' := String.toList_inj.mp hname
      exact ⟨rfl, hrest⟩

theorem accessesText_append_inj (has : ∀ a ∈ as, a.Proper ∧ ∀ e ∈ a.args, e.Determined)
    (hbs : ∀ b ∈ bs, b.Proper) (hx : OperandEnd x) (hy : OperandEnd y)
    (h : accessesText as ++ x = accessesText bs ++ y) : as = bs ∧ x = y := by
  have hpoint {as : List Access} {a : Access} {x y : List Char} (hx : OperandEnd x) :
      x ≠ accessesText (a :: as) ++ y := by
    rintro rfl
    cases a <;> rcases hx with hx | hx | hx <;> cases hx
  induction as generalizing bs with
  | nil =>
    cases bs with
    | nil => exact ⟨rfl, h⟩
    | cons b bs => exact absurd h (hpoint hx)
  | cons a as ih =>
    cases bs with
    | nil => exact absurd h.symm (hpoint hy)
    | cons b bs =>
      obtain ⟨ha, hargs⟩ := has a List.mem_cons_self
      rw [accessesText, accessesText, List.flatMap_cons, List.flatMap_cons, List.append_assoc,
        List.append_assoc] at h
      obtain ⟨rfl, hrest⟩ := text_append_inj ha hargs (hbs b List.mem_cons_self)
        (nameEnd_accessesText as hx) (nameEnd_accessesText bs hy)
        (fun _ => accessesText_ne_open hx) (fun _ => accessesText_ne_open hy) h
      obtain ⟨rfl, hxy⟩ := ih (fun a ha => has a (List.mem_cons_of_mem _ ha))
        (fun b hb => hbs b (List.mem_cons_of_mem _ hb)) hrest
      exact ⟨rfl, hxy⟩

theorem receiverEnd_accessesText (has : ∀ a ∈ as, a.Proper) (hx : OperandEnd x) :
    ReceiverEnd (accessesText as ++ x) := by
  cases as with
  | nil => exact hx.receiverEnd
  | cons a as =>
    have ha := has a List.mem_cons_self
    have hname : ∃ name, IsName name ∧ ∃ rest, a.text = '.' :: (name ++ rest) := by
      cases a with
      | field name => exact ⟨name.toList, ha.isName, [], by rw [List.append_nil]; rfl⟩
      | call name args => exact ⟨name.toList, ha.isName, _, rfl⟩
    obtain ⟨name, hname, rest, htext⟩ := hname
    obtain ⟨first, more, rfl, hstart, -⟩ := hname.shape
    rw [accessesText, List.flatMap_cons, htext]
    exact hstart

/-- An operand of an expression that is no access. -/
def IsOperand (e : Expression) : Expression → Prop
  | .unary _ operand => e = operand
  | .binary _ lhs rhs => e = lhs ∨ e = rhs
  | .ternary predicate ifTrue ifFalse => e = predicate ∨ e = ifTrue ∨ e = ifFalse
  | _ => False

theorem Proper.of_isOperand (h : f.Proper) (he : IsOperand e f) : e.Proper := by
  obtain ⟨hplain, hnamed⟩ := h
  cases f with
  | unary op operand =>
    cases he
    exact ⟨hplain, hnamed⟩
  | binary op lhs rhs =>
    rcases he with rfl | rfl
    · exact ⟨hplain.1, hnamed.1⟩
    · exact ⟨hplain.2, hnamed.2⟩
  | ternary predicate ifTrue ifFalse =>
    rcases he with rfl | rfl | rfl
    · exact ⟨hplain.1, hnamed.1⟩
    · exact ⟨hplain.2.1, hnamed.2.1⟩
    · exact ⟨hplain.2.2, hnamed.2.2⟩
  | _ => exact he.elim

theorem sizeOf_lt_of_isOperand (he : IsOperand e f) : sizeOf e < sizeOf f := by
  cases f with
  | unary op operand =>
    cases he
    simp only [unary.sizeOf_spec]
    omega
  | binary op lhs rhs =>
    rcases he with rfl | rfl <;> (simp only [binary.sizeOf_spec]; omega)
  | ternary predicate ifTrue ifFalse =>
    rcases he with rfl | rfl | rfl <;> (simp only [ternary.sizeOf_spec]; omega)
  | _ => exact he.elim

theorem operandEnd_space : OperandEnd (' ' :: x) :=
  .inl rfl

theorem operandEnd_close : OperandEnd (')' :: x) :=
  .inr (.inl rfl)

/-- What has no parts has no key in parentheses. -/
theorem IsRoot.append_ne_open (he : IsRoot e) : e.key.toList ++ x ≠ '(' :: y := by
  intro h
  obtain ⟨c, rest, hkey, hc⟩ := he.exists_cons
  rw [hkey] at h
  obtain ⟨rfl, -⟩ := List.cons.inj h
  rcases hc with hc | hc | hc | hc <;> cases hc

/-- Behind a first operand, the key of a choice goes on with a question mark, and no operator is
one. -/
theorem symbol_append_ne_question (op : BinaryOp) :
    op.symbol.toList ++ ' ' :: x ≠ ['?'] ++ ' ' :: y := by
  intro h
  have hquestion : ' ' ∉ ['?'] := by decide
  exact op.symbol_ne_question (append_cons_inj op.space_notMem_symbol hquestion h).1

theorem binary_append_inj {op op' : BinaryOp} {lhs rhs lhs' rhs' : Expression}
    (hlhs : lhs.Determined) (hrhs : rhs.Determined) (hproper : (binary op' lhs' rhs').Proper)
    (h : (binary op lhs rhs).key.toList ++ x = (binary op' lhs' rhs').key.toList ++ y) :
    binary op lhs rhs = binary op' lhs' rhs' ∧ x = y := by
  rw [key_binary_append, key_binary_append] at h
  obtain ⟨rfl, hbehind⟩ := hlhs.append_inj (hproper.of_isOperand (.inl rfl)) operandEnd_space
    operandEnd_space (List.cons.inj h).2
  obtain ⟨hsymbol, hlast⟩ := append_cons_inj op.space_notMem_symbol op'.space_notMem_symbol
    (List.cons.inj hbehind).2
  obtain ⟨rfl, hclose⟩ := hrhs.append_inj (hproper.of_isOperand (.inr rfl)) operandEnd_close
    operandEnd_close hlast
  rw [BinaryOp.symbol_inj (String.toList_inj.mp hsymbol)]
  exact ⟨rfl, (List.cons.inj hclose).2⟩

theorem ternary_append_inj {predicate ifTrue ifFalse predicate' ifTrue' ifFalse' : Expression}
    (hpredicate : predicate.Determined) (hifTrue : ifTrue.Determined)
    (hifFalse : ifFalse.Determined) (hproper : (ternary predicate' ifTrue' ifFalse').Proper)
    (h : (ternary predicate ifTrue ifFalse).key.toList ++ x =
      (ternary predicate' ifTrue' ifFalse').key.toList ++ y) :
    ternary predicate ifTrue ifFalse = ternary predicate' ifTrue' ifFalse' ∧ x = y := by
  rw [key_ternary_append, key_ternary_append] at h
  obtain ⟨rfl, hquestion⟩ := hpredicate.append_inj (hproper.of_isOperand (.inl rfl))
    operandEnd_space operandEnd_space (List.cons.inj h).2
  have hbehind := (List.cons.inj (List.append_cancel_left (List.cons.inj hquestion).2)).2
  obtain ⟨rfl, hcolon⟩ := hifTrue.append_inj (hproper.of_isOperand (.inr (.inl rfl)))
    operandEnd_space operandEnd_space hbehind
  have hlast := (List.cons.inj (List.cons.inj (List.cons.inj hcolon).2).2).2
  obtain ⟨rfl, hclose⟩ := hifFalse.append_inj (hproper.of_isOperand (.inr (.inr rfl)))
    operandEnd_close operandEnd_close hlast
  exact ⟨rfl, (List.cons.inj hclose).2⟩

theorem IsHead.append_inj (he : IsHead e) (hf : IsHead f)
    (hoperands : ∀ p, IsOperand p e → p.Determined) (hproper : f.Proper) (hx : ReceiverEnd x)
    (hy : ReceiverEnd y) (h : e.key.toList ++ x = f.key.toList ++ y) : e = f ∧ x = y := by
  cases he with
  | root he =>
    cases hf with
    | root hf => exact he.append_inj hf hx hy h
    | binary op lhs rhs =>
      rw [key_binary_append] at h
      exact absurd h he.append_ne_open
    | ternary predicate ifTrue ifFalse =>
      rw [key_ternary_append] at h
      exact absurd h he.append_ne_open
  | binary op lhs rhs =>
    have hlhs := hoperands lhs (.inl rfl)
    cases hf with
    | root hf =>
      rw [key_binary_append] at h
      exact absurd h.symm hf.append_ne_open
    | binary op' lhs' rhs' =>
      exact binary_append_inj hlhs (hoperands rhs (.inr rfl)) hproper h
    | ternary predicate ifTrue ifFalse =>
      rw [key_binary_append, key_ternary_append] at h
      obtain ⟨-, hbehind⟩ := hlhs.append_inj (hproper.of_isOperand (.inl rfl)) operandEnd_space
        operandEnd_space (List.cons.inj h).2
      exact absurd (List.cons.inj hbehind).2 (symbol_append_ne_question op)
  | ternary predicate ifTrue ifFalse =>
    have hpredicate := hoperands predicate (.inl rfl)
    cases hf with
    | root hf =>
      rw [key_ternary_append] at h
      exact absurd h.symm hf.append_ne_open
    | binary op lhs rhs =>
      rw [key_ternary_append, key_binary_append] at h
      obtain ⟨-, hbehind⟩ := hpredicate.append_inj (hproper.of_isOperand (.inl rfl))
        operandEnd_space operandEnd_space (List.cons.inj h).2
      exact absurd (List.cons.inj hbehind).2.symm (symbol_append_ne_question op)
    | ternary predicate' ifTrue' ifFalse' =>
      exact ternary_append_inj hpredicate (hoperands ifTrue (.inr (.inl rfl)))
        (hoperands ifFalse (.inr (.inr rfl))) hproper h

/-! ## Whole keys -/

/-- Induction over the sizes of expressions. -/
theorem sizeInduction {motive : Expression → Prop}
    (step : ∀ e, (∀ f, sizeOf f < sizeOf e → motive f) → motive e) (e : Expression) : motive e :=
  (measure (sizeOf : Expression → Nat)).wf.induction e step

/-- An operator in front is one character. -/
theorem unary_append_inj {op other : UnaryOp}
    (h : (unary op e).key.toList ++ x = (unary other f).key.toList ++ y) :
    op = other ∧ e.key.toList ++ x = f.key.toList ++ y := by
  rw [toList_key_unary, toList_key_unary] at h
  cases op <;> cases other
  · exact ⟨rfl, (List.cons.inj h).2⟩
  · exact absurd (List.cons.inj h).1 (by decide)
  · exact absurd (List.cons.inj h).1 (by decide)
  · exact ⟨rfl, (List.cons.inj h).2⟩

/-- Every proper expression is determined by its key, also in front of a rest. -/
theorem Proper.determined (he : e.Proper) : e.Determined := by
  induction e using sizeInduction with
  | step e ih =>
    refine ⟨he, fun {f x y} hf hx hy h => ?_⟩
    cases hunary : e.isUnary with
    | true =>
      cases e with
      | unary op operand =>
        cases hunary' : f.isUnary with
        | true =>
          cases f with
          | unary op' operand' =>
            have hoperand := ih operand (sizeOf_lt_of_isOperand rfl) he.operand
            obtain ⟨rfl, hbehind⟩ := unary_append_inj h
            obtain ⟨rfl, hrest⟩ := hoperand.append_inj hf.operand hx hy hbehind
            exact ⟨rfl, hrest⟩
          | _ => cases hunary'
        | false => exact absurd h (hf.not_unary_append hunary')
      | _ => cases hunary
    | false =>
      cases hunary' : f.isUnary with
      | true =>
        cases f with
        | unary op operand => exact absurd h.symm (he.not_unary_append hunary)
        | _ => cases hunary'
      | false =>
        -- innermost receivers agree, and so do the accesses to them
        obtain ⟨hproper, hhead, hsize, haccesses⟩ := split_proper he hunary []
        obtain ⟨hproper', hhead', -, haccesses'⟩ := split_proper hf hunary' []
        have has : ∀ a ∈ (e.split []).2, a.Proper ∧ ∀ arg ∈ a.args, arg.Determined := by
          intro a ha
          obtain ⟨ha, hargs⟩ := (haccesses a ha).resolve_left List.not_mem_nil
          exact ⟨ha, fun arg harg => ih arg (hargs arg harg) (ha.args arg harg)⟩
        have hbs : ∀ b ∈ (f.split []).2, b.Proper := fun b hb =>
          ((haccesses' b hb).resolve_left List.not_mem_nil).1
        have hsplit := toList_key_split e []
        have hsplit' := toList_key_split f []
        rw [accessesText, accessesText, List.flatMap_nil, List.append_nil] at hsplit hsplit'
        rw [← hsplit, ← hsplit', List.append_assoc, List.append_assoc] at h
        obtain ⟨hreceiver, hbehind⟩ := hhead.append_inj hhead'
          (fun p hp => ih p (Nat.lt_of_lt_of_le (sizeOf_lt_of_isOperand hp) hsize)
            (hproper.of_isOperand hp)) hproper'
          (receiverEnd_accessesText (fun a ha => (has a ha).1) hx)
          (receiverEnd_accessesText hbs hy) h
        obtain ⟨haccess, hrest⟩ := accessesText_append_inj has hbs hx hy hbehind
        refine ⟨?_, hrest⟩
        calc e = (e.split []).2.foldl Access.of (e.split []).1 := (foldl_of_split e []).symm
          _ = (f.split []).2.foldl Access.of (f.split []).1 := by rw [hreceiver, haccess]
          _ = f := foldl_of_split f []

/-- Proper expressions with a common key are equal. -/
theorem eq_of_key_eq (he : e.Proper) (hf : f.Proper) (h : e.key = f.key) : e = f :=
  (he.determined.append_inj (x := []) (y := []) hf trivial trivial (by rw [h])).1

mutual

theorem named_of_names : ∀ e : Expression, (∀ name ∈ e.names, IsName name.toList) → e.Named
  | .literal _, _ => trivial
  | .ident name, h => .lexed (h name List.mem_cons_self)
  | .field receiver name, h =>
    ⟨named_of_names receiver fun n hn => h n (List.mem_append_left _ hn),
      h name (List.mem_append_right _ List.mem_cons_self)⟩
  | .call target name args, h =>
    ⟨named_of_names target fun n hn => h n (List.mem_append_left _ hn),
      h name (List.mem_append_right _ List.mem_cons_self),
      namedAll_of_names args fun n hn =>
        h n (List.mem_append_right _ (List.mem_cons_of_mem _ hn))⟩
  | .unary _ operand, h => named_of_names operand h
  | .binary _ lhs rhs, h =>
    ⟨named_of_names lhs fun n hn => h n (List.mem_append_left _ hn),
      named_of_names rhs fun n hn => h n (List.mem_append_right _ hn)⟩
  | .ternary predicate ifTrue ifFalse, h =>
    ⟨named_of_names predicate fun n hn => h n (List.mem_append_left _ hn),
      named_of_names ifTrue fun n hn => h n (List.mem_append_right _ (List.mem_append_left _ hn)),
      named_of_names ifFalse fun n hn => h n (List.mem_append_right _ (List.mem_append_right _ hn))⟩

theorem namedAll_of_names :
    ∀ es : List Expression, (∀ name ∈ namesAll es, IsName name.toList) → NamedAll es
  | [], _ => trivial
  | e :: es, h =>
    ⟨named_of_names e fun n hn => h n (List.mem_append_left _ hn),
      namedAll_of_names es fun n hn => h n (List.mem_append_right _ hn)⟩

end

theorem proper_hoist (h : ∀ name ∈ e.names, IsName name.toList) : e.hoist.Proper := by
  refine ⟨plain_hoist e, named_of_names _ fun name hname => ?_⟩
  rcases mem_names_hoist e hname with hname | rfl
  · exact h name hname
  · exact isName_inf

/-- Two expressions have a common key if and only if hoisting makes them equal. -/
theorem key_eq_iff (he : ∀ name ∈ e.names, IsName name.toList)
    (hf : ∀ name ∈ f.names, IsName name.toList) : e.key = f.key ↔ e.hoist = f.hoist := by
  constructor
  · intro h
    refine eq_of_key_eq (proper_hoist he) (proper_hoist hf) ?_
    rw [key_hoist, key_hoist, h]
  · intro h
    rw [← key_hoist e, h, key_hoist]

end Expression
end BindingPlan
