import BindingPlan.Graph.Kind
import BindingPlan.Proofs.Key.Atom

/-!
# Keys over class references

The key of a class reference holds the name of the class, and class names may hold points. So the
key of a static field looks like the key of a class whose name goes on behind that of another one.
If no class name goes on behind another one, then keys tell class references, and the nodes that
read the wrappers of observable fields, from everything else.

Main results:

* `Apart`: no class name goes on behind another one.
* `Composed.ne_classKey`: the key of a node with parts is not that of a class.
* `Spelled.ne_wrapper`: the key of an expression is not that of a node that reads a wrapper.
-/

namespace BindingPlan

/-- No known name goes on behind another one and a point. -/
def Apart (known : String → Prop) : Prop :=
  ∀ q p, known q → known p → ¬ (q.toList ++ ['.']) <+: p.toList

/-- A text that may be the key of an expression over references to classes of known names. What
stands behind a name or inside of parentheses does not count. -/
inductive Spelled (known : String → Prop) : List Char → Prop where
  | ref {q : String} (h : known q) : Spelled known ("static:".toList ++ q.toList)
  | atom {e : Expression} (h : e.IsAtom) : Spelled known e.key.toList
  | field {receiver name : List Char} (h : Spelled known receiver) (hname : IsName name) :
      Spelled known (receiver ++ '.' :: name)
  | call {target : List Char} (h : Spelled known target) (inner : List Char) :
      Spelled known (target ++ '.' :: (inner ++ [')']))
  | unary (op : UnaryOp) {operand : List Char} (h : Spelled known operand) :
      Spelled known (op.symbol.toList ++ operand)
  | enclosed (inner : List Char) : Spelled known ('(' :: (inner ++ [')']))

/-- The key of an expression, or of a node that reads wrappers of one. -/
inductive Wrapped (known : String → Prop) : List Char → Prop where
  | spelled {key : List Char} (h : Spelled known key) : Wrapped known key
  | wrapper {receiver name : List Char} (h : Wrapped known receiver) (hname : IsName name) :
      Wrapped known (receiver ++ '.' :: '.' :: name)

/-- The key of an expression with parts: an operator or a parenthesis comes first, or else the key
of a receiver. -/
structure Composed (known : String → Prop) (key : List Char) : Prop where
  spelled : Spelled known key
  parts : (∃ c rest, key = c :: rest ∧ c ≠ 's') ∨
    ∃ receiver rest, Spelled known receiver ∧ key = receiver ++ '.' :: rest

variable {known : String → Prop} {q : String} {mark c : Char}
  {key receiver s t x y n rest : List Char}

/-! ## Texts -/

theorem concat_mark_inj (hx : mark ∉ x) (hy : mark ∉ y) (h : s ++ mark :: x = t ++ mark :: y) :
    s = t ∧ x = y := by
  have hrev := congrArg List.reverse h
  simp only [List.reverse_append, List.reverse_cons, List.append_assoc, List.singleton_append]
    at hrev
  obtain ⟨hxy, hst⟩ := append_cons_inj (by simpa using hx) (by simpa using hy) hrev
  exact ⟨List.reverse_injective hst, List.reverse_injective hxy⟩

/-- What a text starts with, the part in front of a mark starts with if the mark is not in it. -/
theorem prefix_of_prefix_append (hs : mark ∉ s) (h : s <+: t ++ mark :: x) : s <+: t := by
  obtain ⟨rest, hrest⟩ := h
  rcases List.append_eq_append_iff.mp hrest with ⟨more, rfl, -⟩ | ⟨more, rfl, heq⟩
  · exact List.prefix_append _ _
  · cases more with
    | nil => simp
    | cons c more =>
      rw [(List.cons.inj heq).1] at hs
      exact absurd (List.mem_append_right t List.mem_cons_self) hs

theorem cons_of_append_cons (h : x ++ mark :: y = c :: t) (hc : c ≠ mark) :
    ∃ more, x = c :: more ∧ t = more ++ mark :: y := by
  cases x with
  | nil => exact absurd (List.cons.inj h).1.symm hc
  | cons d x =>
    obtain ⟨rfl, rfl⟩ := List.cons.inj h
    exact ⟨x, rfl, rfl⟩

theorem IsName.point_notMem (h : IsName n) : '.' ∉ n :=
  fun hmem => by cases h.forall_isNameRest _ hmem

theorem IsName.ne_nil (h : IsName n) : n ≠ [] := by
  obtain ⟨first, rest, rfl, -⟩ := h.shape
  exact List.cons_ne_nil _ _

/-- The last character of a name is part of a name. -/
theorem IsName.append_ne_concat (h : IsName n) (hc : isNameRest c = false) : s ++ n ≠ t ++ [c] := by
  obtain ⟨before, last, rfl⟩ := List.eq_nil_or_concat n |>.resolve_left h.ne_nil
  intro heq
  rw [List.concat_eq_append, ← List.append_assoc] at heq
  obtain ⟨-, hlast⟩ := List.append_inj' heq rfl
  have := h.forall_isNameRest last (by simp)
  rw [List.singleton_inj.mp hlast, hc] at this
  cases this

/-! ## First characters -/

theorem UnaryOp.exists_symbol (op : UnaryOp) : ∃ c, op.symbol.toList = [c] ∧
    ¬ (isNameStart c = true ∨ c.isDigit = true ∨ c = '"' ∨ c = '\'') ∧ c ≠ '.' ∧ c ≠ '(' := by
  cases op
  · exact ⟨'!', rfl, by decide, by decide, by decide⟩
  · exact ⟨'-', rfl, by decide, by decide, by decide⟩

/-- What follows an operator in front is the key of an expression. -/
theorem Spelled.operand {op : UnaryOp} (h : Spelled known key)
    (hkey : key = op.symbol.toList ++ t) : Spelled known t := by
  obtain ⟨c, hc, hfirst, hpoint, hopen⟩ := op.exists_symbol
  rw [hc, List.singleton_append] at hkey
  induction h generalizing t with
  | ref => exact absurd (.inl ((List.cons.inj hkey).1 ▸ rfl)) hfirst
  | atom he =>
    obtain ⟨d, rest, hd, hatom⟩ := he.exists_cons
    rw [hd] at hkey
    exact absurd ((List.cons.inj hkey).1 ▸ hatom) hfirst
  | field _ hname ih =>
    obtain ⟨more, hmore, rfl⟩ := cons_of_append_cons hkey hpoint
    exact (ih hmore).field hname
  | call _ inner ih =>
    obtain ⟨more, hmore, rfl⟩ := cons_of_append_cons hkey hpoint
    exact (ih hmore).call inner
  | unary other h _ =>
    obtain ⟨d, hd, -⟩ := other.exists_symbol
    rw [hd] at hkey
    exact (List.cons.inj hkey).2 ▸ h
  | enclosed inner => exact absurd (List.cons.inj hkey).1.symm hopen

theorem Wrapped.operand {op : UnaryOp} (h : Wrapped known key)
    (hkey : key = op.symbol.toList ++ t) : Wrapped known t := by
  induction h generalizing t with
  | spelled h => exact .spelled (h.operand hkey)
  | wrapper _ hname ih =>
    obtain ⟨c, hc, -, hpoint, -⟩ := op.exists_symbol
    rw [hc, List.singleton_append] at hkey
    obtain ⟨more, hmore, rfl⟩ := cons_of_append_cons hkey hpoint
    refine (ih ?_).wrapper hname
    rw [hc, hmore, List.singleton_append]

/-- What starts with an operator and goes on behind an expression starts with an operator and an
expression. -/
theorem Wrapped.exists_operand {op : UnaryOp} (h : Wrapped known receiver)
    (hkey : op.symbol.toList ++ t = receiver ++ '.' :: rest) :
    ∃ more, Wrapped known more ∧ t = more ++ '.' :: rest := by
  obtain ⟨c, hc, -, hpoint, -⟩ := op.exists_symbol
  obtain ⟨more, rfl, rfl⟩ : ∃ more, receiver = c :: more ∧ t = more ++ '.' :: rest := by
    rw [hc, List.singleton_append] at hkey
    exact cons_of_append_cons hkey.symm hpoint
  have hfront : c :: more = op.symbol.toList ++ more := by rw [hc, List.singleton_append]
  exact ⟨more, h.operand hfront, rfl⟩

/-! ## Class references -/

/-- The key is that of a class, or goes on behind it. -/
def StartsAtClass (known : String → Prop) (key : List Char) : Prop :=
  ∃ q, known q ∧ (key = "static:".toList ++ q.toList ∨
    "static:".toList ++ q.toList ++ ['.'] <+: key)

/-- An access to something that starts at a class goes on behind a class. -/
theorem StartsAtClass.access (h : StartsAtClass known receiver) (rest : List Char) :
    ∃ q, known q ∧ "static:".toList ++ q.toList ++ ['.'] <+: receiver ++ '.' :: rest := by
  obtain ⟨q, hq, rfl | hprefix⟩ := h
  · exact ⟨q, hq, rest, by rw [List.append_assoc _ ['.'], List.singleton_append]⟩
  · exact ⟨q, hq, hprefix.trans (List.prefix_append _ _)⟩

theorem StartsAtClass.of_access (h : StartsAtClass known receiver) (rest : List Char) :
    StartsAtClass known (receiver ++ '.' :: rest) :=
  (h.access rest).imp fun _ h => ⟨h.1, .inr h.2⟩

theorem static_of_access (h : "static:".toList <+: receiver ++ '.' :: rest) :
    "static:".toList <+: receiver :=
  prefix_of_prefix_append (by decide) h

theorem Spelled.startsAtClass (h : Spelled known key) (hstatic : "static:".toList <+: key) :
    StartsAtClass known key := by
  induction h with
  | ref hq => exact ⟨_, hq, .inl rfl⟩
  | atom he => exact absurd hstatic he.not_static
  | field _ _ ih | call _ _ ih => exact (ih (static_of_access hstatic)).of_access _
  | unary op _ =>
    obtain ⟨rest, hrest⟩ := hstatic
    obtain ⟨c, hc, hfirst, -⟩ := op.exists_symbol
    rw [hc] at hrest
    exact absurd (.inl ((List.cons.inj hrest).1 ▸ rfl)) hfirst
  | enclosed inner =>
    obtain ⟨rest, hrest⟩ := hstatic
    exact absurd (List.cons.inj hrest).1 (by decide)

theorem Wrapped.startsAtClass (h : Wrapped known key) (hstatic : "static:".toList <+: key) :
    StartsAtClass known key := by
  induction h with
  | spelled h => exact h.startsAtClass hstatic
  | wrapper _ _ ih => exact (ih (static_of_access hstatic)).of_access _

theorem Expression.IsAtom.ne_append_point {e : Expression} (h : e.IsAtom)
    (hrest : rest = [] ∨ IsName rest) : e.key.toList ≠ s ++ '.' :: rest := by
  -- behind a point of a word or of a number, no name starts
  have hunbroken (hu : Unbroken ReceiverEnd e.key.toList) : e.key.toList ≠ s ++ '.' :: rest := by
    intro hkey
    have hsuffix : '.' :: rest <:+ e.key.toList := ⟨s, hkey.symm⟩
    rcases hrest with rfl | hname
    · exact hu _ hsuffix (List.cons_ne_nil _ _) ['a'] rfl
    · obtain ⟨first, more, rfl, hfirst, -⟩ := hname.shape
      exact hu _ hsuffix (List.cons_ne_nil _ _) [] hfirst
  -- a quote ends in a quote mark
  have hquoted {inner : List Char} {quote : Char}
      (hquote : quote ≠ '.' ∧ isNameRest quote = false) :
      quote :: (inner ++ [quote]) ≠ s ++ '.' :: rest := by
    intro hkey
    have hkey : s ++ '.' :: rest = (quote :: inner) ++ [quote] := hkey.symm
    rcases hrest with rfl | hname
    · exact hquote.1 (List.singleton_inj.mp (List.append_inj' hkey rfl).2).symm
    · rw [← List.singleton_append, ← List.append_assoc] at hkey
      exact hname.append_ne_concat hquote.2 hkey
  cases h with
  | word h => exact hunbroken h.unbroken
  | number h => exact hunbroken h.unbroken
  | quoted h =>
    cases h with
    | text value =>
      rw [toList_key_text]
      exact hquoted (by decide)
    | char value =>
      rw [toList_key_char]
      exact hquoted (by decide)

/-- No access has the key of a class whose name goes on behind no known one. -/
theorem Wrapped.class_ne_of_forall (h : Wrapped known receiver)
    (hq : ∀ p, known p → ¬ (p.toList ++ ['.']) <+: q.toList) :
    "static:".toList ++ q.toList ≠ receiver ++ '.' :: rest := by
  intro hkey
  have hstatic : "static:".toList <+: receiver := static_of_access ⟨q.toList, hkey⟩
  obtain ⟨p, hp, hprefix⟩ := (h.startsAtClass hstatic).access rest
  rw [← hkey, List.append_assoc] at hprefix
  exact hq p hp ((List.prefix_append_right_inj _).mp hprefix)

/-- The key of an expression with parts is not that of such a class. -/
theorem Composed.ne_class_of_forall (h : Composed known key)
    (hq : ∀ p, known p → ¬ (p.toList ++ ['.']) <+: q.toList) :
    key ≠ "static:".toList ++ q.toList := by
  rintro rfl
  obtain ⟨c, rest, hkey, hc⟩ | ⟨receiver, rest, hreceiver, hkey⟩ := h.parts
  · exact hc (List.cons.inj hkey).1.symm
  · exact (Wrapped.spelled hreceiver).class_ne_of_forall hq hkey

section

variable (hapart : Apart known)

include hapart

theorem Wrapped.class_ne (h : Wrapped known receiver) (hq : known q) :
    "static:".toList ++ q.toList ≠ receiver ++ '.' :: rest :=
  h.class_ne_of_forall fun p hp => hapart p q hp hq

theorem Composed.ne_class (h : Composed known key) (hq : known q) :
    key ≠ "static:".toList ++ q.toList :=
  h.ne_class_of_forall fun p hp => hapart p q hp hq

/-! ## Wrappers -/

theorem Spelled.ne_concat_point (h : Spelled known key) (hreceiver : Wrapped known receiver) :
    key ≠ receiver ++ ['.'] := by
  induction h generalizing receiver with
  | ref hq => exact hreceiver.class_ne hapart hq
  | atom he => exact he.ne_append_point (.inl rfl)
  | @field before name _ hname _ =>
    intro heq
    rw [← List.singleton_append, ← List.append_assoc] at heq
    exact hname.append_ne_concat (show isNameRest '.' = false from rfl) heq
  | @call target _ inner _ =>
    intro heq
    have heq : (target ++ '.' :: inner) ++ [')'] = receiver ++ ['.'] := by simpa using heq
    exact absurd (List.append_inj' heq rfl).2 (by decide)
  | unary op _ ih =>
    intro heq
    obtain ⟨more, hmore, heq⟩ := hreceiver.exists_operand heq
    exact ih hmore heq
  | enclosed inner =>
    intro heq
    have heq : ('(' :: inner) ++ [')'] = receiver ++ ['.'] := heq
    exact absurd (List.append_inj' heq rfl).2 (by decide)

/-- The key of an expression is not that of a node that reads a wrapper. -/
theorem Spelled.ne_wrapper (h : Spelled known key) (hreceiver : Wrapped known receiver)
    (hname : IsName n) : key ≠ receiver ++ '.' :: '.' :: n := by
  have hlast (receiver before : List Char) : receiver ++ '.' :: '.' :: n ≠ before ++ [')'] := by
    intro heq
    have heq : (receiver ++ ['.', '.']) ++ n = before ++ [')'] := by simpa using heq
    exact hname.append_ne_concat (show isNameRest ')' = false from rfl) heq
  induction h generalizing receiver with
  | ref hq => exact hreceiver.class_ne hapart hq
  | atom he =>
    intro heq
    rw [← List.singleton_append, ← List.append_assoc] at heq
    exact he.ne_append_point (.inr hname) heq
  | @field before name hbefore hname' _ =>
    intro heq
    have heq : before ++ '.' :: name = (receiver ++ ['.']) ++ '.' :: n := by simpa using heq
    obtain ⟨heq, -⟩ := concat_mark_inj hname'.point_notMem hname.point_notMem heq
    exact hbefore.ne_concat_point hapart hreceiver heq
  | @call target _ inner _ =>
    intro heq
    exact hlast receiver (target ++ '.' :: inner) (by simpa using heq.symm)
  | unary op _ ih =>
    intro heq
    obtain ⟨more, hmore, heq⟩ := hreceiver.exists_operand heq
    exact ih hmore heq
  | enclosed inner =>
    intro heq
    exact hlast receiver ('(' :: inner) heq.symm

end

/-! ## Keys of kinds -/

/-- The kinds of expressions with parts, and the number of parts. -/
inductive Kind.Composes : Kind → Nat → Prop where
  | field {name : String} (h : IsName name.toList) : Composes (.field name false) 1
  | call {name : String} (h : IsName name.toList) (args : Nat) : Composes (.call name) (args + 1)
  | binary (op : BinaryOp) : Composes (.binary op) 2
  | unary (op : UnaryOp) : Composes (.unary op) 1
  | ternary : Composes .ternary 3

theorem Kind.Composes.length_binary {op : BinaryOp} {n : Nat} (h : Composes (.binary op) n) :
    n = 2 := by
  cases h
  rfl

theorem Kind.Composes.length_unary {op : UnaryOp} {n : Nat} (h : Composes (.unary op) n) :
    n = 1 := by
  cases h
  rfl

theorem Kind.Composes.length_ternary {n : Nat} (h : Composes .ternary n) : n = 3 := by
  cases h
  rfl

/-- The key of an expression over keys of expressions. -/
theorem Kind.Composes.composed {kind : Kind} {keys : List String} (h : kind.Composes keys.length)
    (hkeys : ∀ key ∈ keys, Spelled known key.toList) : Composed known (kind.key keys).toList := by
  have henclosed (inner : List Char) : Composed known ('(' :: (inner ++ [')'])) :=
    ⟨.enclosed inner, .inl ⟨_, _, rfl, by decide⟩⟩
  generalize hn : keys.length = n at h
  cases h with
  | @field name hname =>
    obtain ⟨receiver, rfl⟩ := List.length_eq_one_iff.mp hn
    have hreceiver := hkeys receiver List.mem_cons_self
    have hkey : ((Kind.field name false).key [receiver]).toList =
        receiver.toList ++ '.' :: name.toList := by
      simp [key]
    exact hkey ▸ ⟨hreceiver.field hname, .inr ⟨_, _, hreceiver, rfl⟩⟩
  | @call name hname args =>
    obtain ⟨target, keys, rfl⟩ := List.exists_cons_of_length_eq_add_one hn
    have htarget := hkeys target List.mem_cons_self
    have hkey : ((Kind.call name).key (target :: keys)).toList = target.toList ++
        '.' :: ((name.toList ++ '(' :: (", ".intercalate keys).toList) ++ [')']) := by
      simp [key]
    exact hkey ▸ ⟨htarget.call _, .inr ⟨_, _, htarget, rfl⟩⟩
  | binary op =>
    have hkey : ((Kind.binary op).key keys).toList = '(' :: ((keys.getD 0 "").toList ++
        (' ' :: op.symbol.toList ++ ' ' :: (keys.getD 1 "").toList) ++ [')']) := by
      simp [key]
    exact hkey ▸ henclosed _
  | unary op =>
    obtain ⟨operand, rfl⟩ := List.length_eq_one_iff.mp hn
    have hoperand := hkeys operand List.mem_cons_self
    have hkey : ((Kind.unary op).key [operand]).toList = op.symbol.toList ++ operand.toList := by
      simp [key]
    obtain ⟨c, hc, hfirst, -⟩ := op.exists_symbol
    refine hkey ▸ ⟨.unary op hoperand, .inl ⟨c, operand.toList, by rw [hc]; rfl, ?_⟩⟩
    rintro rfl
    exact hfirst (by decide)
  | ternary =>
    have hkey : (Kind.ternary.key keys).toList = '(' :: ((keys.getD 0 "").toList ++
        (' ' :: '?' :: ' ' :: (keys.getD 1 "").toList ++
          ' ' :: ':' :: ' ' :: (keys.getD 2 "").toList) ++ [')']) := by
      simp [key]
    exact hkey ▸ henclosed _

end BindingPlan
