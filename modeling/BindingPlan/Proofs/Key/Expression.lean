import BindingPlan.Graph.Kind
import BindingPlan.Proofs.Tree.Names

/-!
# Expressions and their keys

An expression is a tree without its spans and groups, with `a ?? b` written out as the choice
`a == null ? b : a`. The key of its node is a text of the keys of its parts.

A key puts no parentheses around an operator and its operand, so that `(-a).b` and `-a.b` have one
key; and the literals beyond all finite numbers have the key of a variable `inf`. Hoisting an
expression moves operators in front of receivers outwards, and puts that variable in place of those
literals. It does not change the key, and plain expressions stay as they are.

Main results:

* `Expression.key_hoist`: hoisting keeps keys.
* `Expression.plain_hoist`, `Expression.hoist_eq_self`: hoisted expressions are plain, and plain
  ones are hoisted.
-/

namespace BindingPlan

/-- What an expression says, apart from how it is written. -/
inductive Expression where
  | literal (value : Literal)
  | ident (name : String)
  | field (receiver : Expression) (name : String)
  | call (target : Expression) (name : String) (args : List Expression)
  | unary (op : UnaryOp) (operand : Expression)
  | binary (op : BinaryOp) (lhs rhs : Expression)
  | ternary (predicate ifTrue ifFalse : Expression)

mutual

/-- The expression of a tree. -/
def Tree.expression : Tree → Expression
  | .literal _ value => .literal value
  | .ident _ name => .ident name
  | .field _ receiver name => .field receiver.expression name.text
  | .call _ target name args => .call target.expression name.text (Tree.expressions args)
  | .unary _ op operand => .unary op operand.expression
  | .binary _ op lhs rhs => .binary op lhs.expression rhs.expression
  | .ternary _ predicate ifTrue ifFalse =>
    .ternary predicate.expression ifTrue.expression ifFalse.expression
  | .coalesce _ lhs rhs =>
    .ternary (.binary (.compare .eq) lhs.expression (.literal .null)) rhs.expression lhs.expression
  | .group _ inner => inner.expression

def Tree.expressions : List Tree → List Expression
  | [] => []
  | tree :: trees => tree.expression :: Tree.expressions trees

end

namespace Expression

/-- The parts of an expression, from left to right. -/
def parts : Expression → List Expression
  | .literal _ | .ident _ => []
  | .field receiver _ => [receiver]
  | .call target _ args => target :: args
  | .unary _ operand => [operand]
  | .binary _ lhs rhs => [lhs, rhs]
  | .ternary predicate ifTrue ifFalse => [predicate, ifTrue, ifFalse]

mutual

/-- The key of the node of an expression over variables. -/
def key : Expression → String
  | .literal value => (Kind.symbol value.render value.typeName).key []
  | .ident name => (Kind.identifier name).key []
  | .field receiver name => (Kind.field name false).key [receiver.key]
  | .call target name args => (Kind.call name).key (target.key :: keys args)
  | .unary op operand => (Kind.unary op).key [operand.key]
  | .binary op lhs rhs => (Kind.binary op).key [lhs.key, rhs.key]
  | .ternary predicate ifTrue ifFalse =>
    Kind.ternary.key [predicate.key, ifTrue.key, ifFalse.key]

def keys : List Expression → List String
  | [] => []
  | e :: es => e.key :: keys es

end

mutual

/-- The names of variables and members in an expression. -/
def names : Expression → List String
  | .literal _ => []
  | .ident name => [name]
  | .field receiver name => receiver.names ++ [name]
  | .call target name args => target.names ++ name :: namesAll args
  | .unary _ operand => operand.names
  | .binary _ lhs rhs => lhs.names ++ rhs.names
  | .ternary predicate ifTrue ifFalse => predicate.names ++ (ifTrue.names ++ ifFalse.names)

def namesAll : List Expression → List String
  | [] => []
  | e :: es => e.names ++ namesAll es

end

/-! ## Accesses -/

/-- The member that an access reads or calls. -/
inductive Access where
  | field (name : String)
  | call (name : String) (args : List Expression)

/-- The access to a member of an expression. -/
def Access.of (receiver : Expression) : Access → Expression
  | .field name => .field receiver name
  | .call name args => .call receiver name args

/-- The access below the operators in front of the receiver. -/
def access (access : Access) : Expression → Expression
  | .unary op operand => .unary op (operand.access access)
  | receiver => access.of receiver

def isUnary : Expression → Bool
  | .unary _ _ => true
  | _ => false

/-! ## Hoisting -/

/-- A literal, or the variable that its key is mistaken for. -/
def ofLiteral (value : Literal) : Expression :=
  if value = .float .infinity then .ident "inf" else .literal value

mutual

/-- The expression with all operators in front of receivers moved outwards, and the variable `inf`
in place of infinite literals. -/
def hoist : Expression → Expression
  | .literal value => ofLiteral value
  | .ident name => .ident name
  | .field receiver name => receiver.hoist.access (.field name)
  | .call target name args => target.hoist.access (.call name (hoistAll args))
  | .unary op operand => .unary op operand.hoist
  | .binary op lhs rhs => .binary op lhs.hoist rhs.hoist
  | .ternary predicate ifTrue ifFalse => .ternary predicate.hoist ifTrue.hoist ifFalse.hoist

def hoistAll : List Expression → List Expression
  | [] => []
  | e :: es => e.hoist :: hoistAll es

end

mutual

/-- No receiver has an operator in front, and no literal is beyond the finite numbers. -/
def Plain : Expression → Prop
  | .literal value => value ≠ .float .infinity
  | .ident _ => True
  | .field receiver _ => receiver.isUnary = false ∧ receiver.Plain
  | .call target _ args => target.isUnary = false ∧ target.Plain ∧ PlainAll args
  | .unary _ operand => operand.Plain
  | .binary _ lhs rhs => lhs.Plain ∧ rhs.Plain
  | .ternary predicate ifTrue ifFalse => predicate.Plain ∧ ifTrue.Plain ∧ ifFalse.Plain

def PlainAll : List Expression → Prop
  | [] => True
  | e :: es => e.Plain ∧ PlainAll es

end

variable {e : Expression} {es : List Expression} {op : UnaryOp} {a : Access}

/-! ## Keys of hoisted expressions -/

/-- The key of an access, given the key of the receiver. -/
def Access.keyOn (receiver : String) : Access → String
  | .field name => (Kind.field name false).key [receiver]
  | .call name args => (Kind.call name).key (receiver :: keys args)

theorem key_of (receiver : Expression) (a : Access) :
    (a.of receiver).key = a.keyOn receiver.key := by
  cases a <;> rfl

theorem key_unary (op : UnaryOp) (operand : Expression) :
    (unary op operand).key = op.symbol ++ operand.key :=
  rfl

/-- An access comes behind the operators in front of its receiver. -/
theorem keyOn_symbol_append (a : Access) (op : UnaryOp) (receiver : String) :
    a.keyOn (op.symbol ++ receiver) = op.symbol ++ a.keyOn receiver := by
  cases a <;> simp [Access.keyOn, Kind.key, String.append_assoc]

theorem access_of_not_unary (h : e.isUnary = false) : e.access a = a.of e := by
  cases e with
  | unary => cases h
  | _ => rfl

/-- Induction over the operators in front of an expression. -/
theorem unaryInduction {motive : Expression → Prop}
    (unary : ∀ op operand, motive operand → motive (.unary op operand))
    (other : ∀ e, e.isUnary = false → motive e) (e : Expression) : motive e := by
  induction e using access.induct with
  | case1 op operand ih => exact unary op operand ih
  | case2 e hne =>
    cases e with
    | unary op operand => exact (hne op operand rfl).elim
    | _ => exact other _ rfl

theorem key_access (a : Access) (e : Expression) : (e.access a).key = a.keyOn e.key := by
  induction e using unaryInduction with
  | unary op operand ih => rw [access, key_unary, ih, key_unary, keyOn_symbol_append]
  | other e hunary => rw [access_of_not_unary hunary, key_of]

theorem key_ofLiteral (value : Literal) : (ofLiteral value).key = value.render := by
  unfold ofLiteral
  split
  · next h =>
    subst h
    decide +kernel
  · rfl

mutual

theorem key_hoist : ∀ e : Expression, e.hoist.key = e.key
  | .literal value => key_ofLiteral value
  | .ident _ => rfl
  | .field receiver name => by
    rw [hoist, key_access, key_hoist receiver]
    rfl
  | .call target name args => by
    rw [hoist, key_access, Access.keyOn, key_hoist target, keys_hoistAll args, key]
  | .unary op operand => by rw [hoist, key, key_hoist operand, key]
  | .binary op lhs rhs => by rw [hoist, key, key_hoist lhs, key_hoist rhs, key]
  | .ternary predicate ifTrue ifFalse => by
    rw [hoist, key, key_hoist predicate, key_hoist ifTrue, key_hoist ifFalse, key]

theorem keys_hoistAll : ∀ es : List Expression, keys (hoistAll es) = keys es
  | [] => rfl
  | e :: es => by rw [hoistAll, keys, key_hoist e, keys_hoistAll es, keys]

end

/-! ## Plain expressions -/

def Access.Plain : Access → Prop
  | .field _ => True
  | .call _ args => PlainAll args

theorem plain_access (he : e.Plain) (ha : a.Plain) : (e.access a).Plain := by
  induction e using unaryInduction with
  | unary op operand ih => exact ih he
  | other e hunary =>
    rw [access_of_not_unary hunary]
    cases a with
    | field name => exact ⟨hunary, he⟩
    | call name args => exact ⟨hunary, he, ha⟩

theorem plain_ofLiteral (value : Literal) : (ofLiteral value).Plain := by
  unfold ofLiteral
  split
  · trivial
  · next h => exact h

mutual

theorem plain_hoist : ∀ e : Expression, e.hoist.Plain
  | .literal value => plain_ofLiteral value
  | .ident _ => trivial
  | .field receiver _ => plain_access (plain_hoist receiver) trivial
  | .call target _ args => plain_access (plain_hoist target) (plainAll_hoistAll args)
  | .unary _ operand => plain_hoist operand
  | .binary _ lhs rhs => ⟨plain_hoist lhs, plain_hoist rhs⟩
  | .ternary predicate ifTrue ifFalse =>
    ⟨plain_hoist predicate, plain_hoist ifTrue, plain_hoist ifFalse⟩

theorem plainAll_hoistAll : ∀ es : List Expression, PlainAll (hoistAll es)
  | [] => trivial
  | e :: es => ⟨plain_hoist e, plainAll_hoistAll es⟩

end

mutual

theorem hoist_eq_self : ∀ e : Expression, e.Plain → e.hoist = e
  | .literal value, h => if_neg h
  | .ident _, _ => rfl
  | .field receiver name, h => by
    rw [hoist, hoist_eq_self receiver h.2, access_of_not_unary h.1]
    rfl
  | .call target name args, h => by
    rw [hoist, hoist_eq_self target h.2.1, hoistAll_eq_self args h.2.2, access_of_not_unary h.1]
    rfl
  | .unary op operand, h => by rw [hoist, hoist_eq_self operand h]
  | .binary op lhs rhs, h => by rw [hoist, hoist_eq_self lhs h.1, hoist_eq_self rhs h.2]
  | .ternary predicate ifTrue ifFalse, h => by
    rw [hoist, hoist_eq_self predicate h.1, hoist_eq_self ifTrue h.2.1, hoist_eq_self ifFalse h.2.2]

theorem hoistAll_eq_self : ∀ es : List Expression, PlainAll es → hoistAll es = es
  | [], _ => rfl
  | e :: es, h => by rw [hoistAll, hoist_eq_self e h.1, hoistAll_eq_self es h.2]

end

/-! ## Names -/

def Access.names : Access → List String
  | .field name => [name]
  | .call name args => name :: namesAll args

theorem names_access (a : Access) (e : Expression) : (e.access a).names = e.names ++ a.names := by
  induction e using unaryInduction with
  | unary op operand ih => exact ih
  | other e hunary =>
    rw [access_of_not_unary hunary]
    cases a <;> rfl

mutual

/-- Hoisting adds no name but that of the variable for infinite literals. -/
theorem mem_names_hoist : ∀ (e : Expression) {name : String},
    name ∈ e.hoist.names → name ∈ e.names ∨ name = "inf"
  | .literal value, name, h => by
    rw [hoist, ofLiteral] at h
    split at h
    · exact .inr (List.mem_singleton.mp h)
    · cases h
  | .ident _, _, h => .inl h
  | .field receiver member, name, h => by
    rw [hoist, names_access, List.mem_append] at h
    rw [names, List.mem_append]
    rcases h with h | h
    · exact (mem_names_hoist receiver h).imp_left .inl
    · exact .inl (.inr h)
  | .call target member args, name, h => by
    rw [hoist, names_access, Access.names, List.mem_append, List.mem_cons] at h
    rw [names, List.mem_append, List.mem_cons]
    rcases h with h | h | h
    · exact (mem_names_hoist target h).imp_left .inl
    · exact .inl (.inr (.inl h))
    · exact (mem_namesAll_hoistAll args h).imp_left fun h => .inr (.inr h)
  | .unary op operand, name, h => mem_names_hoist operand h
  | .binary op lhs rhs, name, h => by
    rw [hoist, names, List.mem_append] at h
    rw [names, List.mem_append]
    rcases h with h | h
    · exact (mem_names_hoist lhs h).imp_left .inl
    · exact (mem_names_hoist rhs h).imp_left .inr
  | .ternary predicate ifTrue ifFalse, name, h => by
    rw [hoist, names, List.mem_append, List.mem_append] at h
    rw [names, List.mem_append, List.mem_append]
    rcases h with h | h | h
    · exact (mem_names_hoist predicate h).imp_left .inl
    · exact (mem_names_hoist ifTrue h).imp_left fun h => .inr (.inl h)
    · exact (mem_names_hoist ifFalse h).imp_left fun h => .inr (.inr h)

theorem mem_namesAll_hoistAll : ∀ (es : List Expression) {name : String},
    name ∈ namesAll (hoistAll es) → name ∈ namesAll es ∨ name = "inf"
  | [], _, h => .inl h
  | e :: es, name, h => by
    rw [hoistAll, namesAll, List.mem_append] at h
    rw [namesAll, List.mem_append]
    rcases h with h | h
    · exact (mem_names_hoist e h).imp_left .inl
    · exact (mem_namesAll_hoistAll es h).imp_left .inr

end

end Expression

mutual

/-- The names of an expression are names of its tree. -/
theorem Tree.mem_names_of_expression : ∀ (tree : Tree) {name : String},
    name ∈ tree.expression.names → name ∈ tree.names
  | .literal _ _, _, h => h
  | .ident _ _, _, h => h
  | .field _ receiver member, name, h => by
    rw [expression, Expression.names, List.mem_append] at h
    rw [names, List.mem_append]
    exact h.imp_left (mem_names_of_expression receiver)
  | .call _ target member args, name, h => by
    rw [expression, Expression.names, List.mem_append, List.mem_cons] at h
    rw [names, List.mem_append, List.mem_cons]
    exact h.imp (mem_names_of_expression target) (Or.imp_right (mem_namesAll_of_expressions args))
  | .unary _ _ operand, _, h => mem_names_of_expression operand h
  | .binary _ _ lhs rhs, name, h => by
    rw [expression, Expression.names, List.mem_append] at h
    rw [names, List.mem_append]
    exact h.imp (mem_names_of_expression lhs) (mem_names_of_expression rhs)
  | .ternary _ predicate ifTrue ifFalse, name, h => by
    rw [expression, Expression.names, List.mem_append, List.mem_append] at h
    rw [names, List.mem_append, List.mem_append]
    exact h.imp (mem_names_of_expression predicate)
      (Or.imp (mem_names_of_expression ifTrue) (mem_names_of_expression ifFalse))
  | .coalesce _ lhs rhs, name, h => by
    simp only [expression, Expression.names, List.mem_append, List.not_mem_nil, or_false] at h
    rw [names, List.mem_append]
    rcases h with h | h | h
    · exact .inl (mem_names_of_expression lhs h)
    · exact .inr (mem_names_of_expression rhs h)
    · exact .inl (mem_names_of_expression lhs h)
  | .group _ inner, _, h => mem_names_of_expression inner h

theorem Tree.mem_namesAll_of_expressions : ∀ (trees : List Tree) {name : String},
    name ∈ Expression.namesAll (Tree.expressions trees) → name ∈ Tree.namesAll trees
  | [], _, h => h
  | tree :: trees, name, h => by
    rw [expressions, Expression.namesAll, List.mem_append] at h
    rw [namesAll, List.mem_append]
    exact h.imp (mem_names_of_expression tree) (mem_namesAll_of_expressions trees)

end

end BindingPlan
