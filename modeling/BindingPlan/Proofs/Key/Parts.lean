import BindingPlan.Proofs.Key.Injective
import BindingPlan.Proofs.Key.Kinds

/-!
# Keys tell parts

Let the names of classes be dotted names, and let no receiver have an operator in front. Then the
key of an expression with parts tells its kind and the keys of its parts: a class that it refers to
reads like the accesses to its outer parts, and where that counts, classes are told from accesses as
no name of a class goes on behind another one.

Main results:

* `IsDotted`: names of classes of which all parts are names of the lexer.
* `Kind.Takes.key_inj`: expressions over parts have one key only if kinds and parts agree.
* `Kind.Writes`: the kinds of nodes and their keys, as sources write them.
* `Kind.Writes.eq_of_takes`: a node with the key of an expression with parts is one of its kind.
-/

namespace BindingPlan

/-! ## Names of classes -/

/-- All parts of the name are names of the lexer. -/
def IsDotted (q : String) : Prop :=
  ∀ part ∈ q.toList.splitOn '.', IsName part

instance : DecidablePred IsDotted :=
  fun q => inferInstanceAs (Decidable (∀ part ∈ q.toList.splitOn '.', IsName part))

theorem intercalate_point (first : List Char) (rest : List (List Char)) :
    ['.'].intercalate (first :: rest) = first ++ rest.flatMap ('.' :: ·) := by
  induction rest generalizing first with
  | nil => simp
  | cons second rest ih => rw [List.intercalate_cons_cons, ih]; simp

/-- The key of a proper expression. -/
def IsProperKey (key : String) : Prop :=
  ∃ e : Expression, e.Proper ∧ e.key = key

/-- The key of a proper expression that has no operator in front. -/
def IsReceiverKey (key : String) : Prop :=
  ∃ e : Expression, e.Proper ∧ e.isUnary = false ∧ e.key = key

theorem IsReceiverKey.isProperKey {key : String} (h : IsReceiverKey key) : IsProperKey key := by
  obtain ⟨e, he, -, hkey⟩ := h
  exact ⟨e, he, hkey⟩

/-- The accesses to the parts of a dotted name behind its first one. -/
theorem IsReceiverKey.accesses {key : String} {parts : List (List Char)} (h : IsReceiverKey key)
    (hparts : ∀ part ∈ parts, IsName part) :
    IsReceiverKey (String.ofList (key.toList ++ parts.flatMap ('.' :: ·))) := by
  induction parts generalizing key with
  | nil => simpa using h
  | cons part parts ih =>
    rw [List.forall_mem_cons] at hparts
    obtain ⟨e, he, hunary, rfl⟩ := h
    have hname : IsName (String.ofList part).toList := by
      rw [String.toList_ofList]
      exact hparts.1
    have haccess : IsReceiverKey (Expression.field e (String.ofList part)).key :=
      ⟨.field e _, ⟨⟨hunary, he.plain⟩, ⟨he.named, hname⟩⟩, rfl, rfl⟩
    have hkey : (Expression.field e (String.ofList part)).key.toList ++ parts.flatMap ('.' :: ·) =
        e.key.toList ++ (part :: parts).flatMap ('.' :: ·) := by
      simp [Expression.key, Kind.key]
    rw [← hkey]
    exact ih haccess hparts.2

/-- A class with a dotted name is referred to like a proper expression. -/
theorem IsDotted.isReceiverKey {q : String} (h : IsDotted q) : IsReceiverKey (Kind.classKey q) := by
  obtain ⟨first, rest, hsplit⟩ := List.exists_cons_of_ne_nil (List.splitOn_ne_nil '.' q.toList)
  unfold IsDotted at h
  rw [hsplit, List.forall_mem_cons] at h
  have hroot : IsReceiverKey (Kind.classKey (String.ofList first)) := by
    refine ⟨.ident _, ⟨trivial, .package ?_ rfl⟩, rfl, rfl⟩
    rw [String.toList_ofList]
    exact h.1
  have hkey : (Kind.classKey (String.ofList first)).toList ++ rest.flatMap ('.' :: ·) =
      (Kind.classKey q).toList := by
    rw [Kind.toList_classKey, Kind.toList_classKey, List.append_assoc, @String.toList_ofList first,
      ← intercalate_point, ← hsplit, List.intercalate_splitOn]
  have haccesses := hroot.accesses h.2
  rwa [hkey, String.ofList_toList] at haccesses

/-! ## Expressions over parts -/

namespace Expression

/-- The kind of the node of an expression. -/
def kind : Expression → Kind
  | .literal value => .symbol value.render value.typeName
  | .ident name => .identifier name
  | .field _ name => .field name false
  | .call _ name _ => .call name
  | .unary op _ => .unary op
  | .binary op _ _ => .binary op
  | .ternary _ _ _ => .ternary

variable {e : Expression} {es : List Expression}

theorem keys_eq_map (es : List Expression) : keys es = es.map key := by
  induction es with
  | nil => rfl
  | cons e es ih => rw [keys, ih, List.map_cons]

theorem key_eq (e : Expression) : e.key = e.kind.key (e.parts.map key) := by
  cases e with
  | call target name args => rw [key, keys_eq_map, kind, parts, List.map_cons]
  | _ => rfl

theorem exists_unary_of_isUnary (h : e.isUnary = true) : ∃ op, e.kind = .unary op := by
  cases e with
  | unary op _ => exact ⟨op, rfl⟩
  | _ => cases h

theorem forall_proper (h : ∀ e ∈ es, e.Proper) : PlainAll es ∧ NamedAll es := by
  induction es with
  | nil => exact ⟨trivial, trivial⟩
  | cons e es ih =>
    rw [List.forall_mem_cons] at h
    exact ⟨⟨h.1.plain, (ih h.2).1⟩, h.1.named, (ih h.2).2⟩

/-- An expression with proper parts is proper, unless the receiver of an access has an operator in
front. -/
theorem proper_of_parts (h : e.kind.Composes e.parts.length) (hparts : ∀ p ∈ e.parts, p.Proper)
    (hreceiver : e.kind.hasReceiver = true → ∀ p ∈ e.parts.head?, p.isUnary = false) :
    e.Proper := by
  cases e with
  | literal | ident => cases h
  | field receiver name =>
    have hproper := hparts receiver List.mem_cons_self
    exact ⟨⟨hreceiver rfl receiver rfl, hproper.plain⟩, ⟨hproper.named, h.isName rfl⟩⟩
  | call target name args =>
    have htarget := hparts target List.mem_cons_self
    obtain ⟨hplain, hnamed⟩ := forall_proper fun p hp => hparts p (List.mem_cons_of_mem _ hp)
    refine ⟨⟨hreceiver rfl target rfl, htarget.plain, hplain⟩, ⟨htarget.named, ?_, hnamed⟩⟩
    cases h with
    | call hname => exact hname
  | unary op operand =>
    have hproper := hparts operand List.mem_cons_self
    exact ⟨hproper.plain, hproper.named⟩
  | binary op lhs rhs =>
    simp only [parts, List.forall_mem_cons] at hparts
    exact ⟨⟨hparts.1.plain, hparts.2.1.plain⟩, ⟨hparts.1.named, hparts.2.1.named⟩⟩
  | ternary predicate ifTrue ifFalse =>
    simp only [parts, List.forall_mem_cons] at hparts
    exact ⟨⟨hparts.1.plain, hparts.2.1.plain, hparts.2.2.1.plain⟩,
      ⟨hparts.1.named, hparts.2.1.named, hparts.2.2.1.named⟩⟩

/-- Of every kind with parts there is an expression over as many parts as it needs. -/
theorem exists_of_composes {kind : Kind} (h : kind.Composes es.length) :
    ∃ e : Expression, e.kind = kind ∧ e.parts = es := by
  generalize hn : es.length = n at h
  cases h with
  | @field name =>
    obtain ⟨receiver, rfl⟩ := List.length_eq_one_iff.mp hn
    exact ⟨.field receiver name, rfl, rfl⟩
  | @call name =>
    obtain ⟨target, args, rfl⟩ := List.exists_cons_of_length_eq_add_one hn
    exact ⟨.call target name args, rfl, rfl⟩
  | unary op =>
    obtain ⟨operand, rfl⟩ := List.length_eq_one_iff.mp hn
    exact ⟨.unary op operand, rfl, rfl⟩
  | binary op =>
    obtain ⟨lhs, rhs, rfl⟩ := List.length_eq_two.mp hn
    exact ⟨.binary op lhs rhs, rfl, rfl⟩
  | ternary =>
    obtain ⟨predicate, ifTrue, ifFalse, rfl⟩ := List.length_eq_three.mp hn
    exact ⟨.ternary predicate ifTrue ifFalse, rfl, rfl⟩

theorem proper_ident {name : String} (h : IsName name.toList) : (Expression.ident name).Proper :=
  ⟨trivial, .lexed h⟩

theorem proper_ofLiteral (value : Literal) : (ofLiteral value).Proper := by
  refine ⟨plain_ofLiteral value, ?_⟩
  unfold ofLiteral
  split
  · exact .lexed isName_inf
  · trivial

theorem parts_ofLiteral (value : Literal) : (ofLiteral value).parts = [] := by
  unfold ofLiteral
  split <;> rfl

end Expression

theorem isReceiverKey_of_name {name : String} (h : IsName name.toList) : IsReceiverKey name :=
  ⟨.ident name, Expression.proper_ident h, rfl, rfl⟩

theorem isReceiverKey_of_literal (value : Literal) : IsReceiverKey value.render := by
  refine ⟨.ofLiteral value, Expression.proper_ofLiteral value, ?_, Expression.key_ofLiteral value⟩
  unfold Expression.ofLiteral
  split <;> rfl

variable {known : String → Prop} {kind other : Kind} {key : String} {keys others : List String}

theorem exists_proper_of_keys (h : ∀ key ∈ keys, IsProperKey key) :
    ∃ es : List Expression, (∀ e ∈ es, e.Proper) ∧ es.map Expression.key = keys := by
  induction keys with
  | nil => exact ⟨[], nofun, rfl⟩
  | cons key keys ih =>
    rw [List.forall_mem_cons] at h
    obtain ⟨e, he, rfl⟩ := h.1
    obtain ⟨es, hes, rfl⟩ := ih h.2
    exact ⟨e :: es, List.forall_mem_cons.mpr ⟨he, hes⟩, rfl⟩

/-- The keys of the parts of an expression of the kind: they are keys of expressions, and for an
access the first one has no operator in front. -/
structure Kind.Takes (known : String → Prop) (kind : Kind) (keys : List String) : Prop where
  composes : kind.Composes keys.length
  spelled : ∀ key ∈ keys, Spelled known key.toList
  proper : ∀ key ∈ keys, IsProperKey key
  receiver : kind.hasReceiver = true → ∀ key ∈ keys.head?, IsReceiverKey key

namespace Kind.Takes

/-- The expression over the parts. -/
theorem exists_expression (h : kind.Takes known keys) :
    ∃ e : Expression, e.Proper ∧ e.key = kind.key keys ∧ e.kind = kind ∧
      e.parts.map Expression.key = keys := by
  obtain ⟨es, hes, rfl⟩ := exists_proper_of_keys h.proper
  have hcomposes := h.composes
  rw [List.length_map] at hcomposes
  obtain ⟨e, rfl, rfl⟩ := Expression.exists_of_composes hcomposes
  refine ⟨e, Expression.proper_of_parts hcomposes hes fun hreceiver p hp => ?_, e.key_eq, rfl, rfl⟩
  obtain ⟨f, hf, hunary, hkey⟩ := h.receiver hreceiver p.key (by rw [List.head?_map, hp]; rfl)
  rwa [Expression.eq_of_key_eq hf (hes p (List.mem_of_mem_head? hp)) hkey] at hunary

theorem composed (h : kind.Takes known keys) : Composed known (kind.key keys).toList :=
  h.composes.composed h.spelled

/-- Expressions over parts have one key only if their kinds agree and their parts have the same
keys. -/
theorem key_inj (h : kind.Takes known keys) (h' : other.Takes known others)
    (hkey : kind.key keys = other.key others) : kind = other ∧ keys = others := by
  obtain ⟨e, he, hekey, rfl, rfl⟩ := h.exists_expression
  obtain ⟨f, hf, hfkey, rfl, rfl⟩ := h'.exists_expression
  rw [Expression.eq_of_key_eq he hf (hekey.trans (hkey.trans hfkey.symm))]
  exact ⟨rfl, rfl⟩

theorem isProperKey (h : kind.Takes known keys) : IsProperKey (kind.key keys) := by
  obtain ⟨e, he, hkey, -, -⟩ := h.exists_expression
  exact ⟨e, he, hkey⟩

/-- Only an operator in front makes an expression that is no receiver. -/
theorem isReceiverKey (h : kind.Takes known keys) (hunary : ∀ op, kind ≠ .unary op) :
    IsReceiverKey (kind.key keys) := by
  obtain ⟨e, he, hkey, rfl, -⟩ := h.exists_expression
  refine ⟨e, he, Bool.eq_false_iff.mpr fun hfront => ?_, hkey⟩
  obtain ⟨op, hop⟩ := Expression.exists_unary_of_isUnary hfront
  exact hunary op hop

/-- The key of an expression with parts is that of no other expression. -/
theorem ne_atom (h : kind.Takes known keys) {e : Expression} (he : e.Proper)
    (hparts : e.parts = []) :
    kind.key keys ≠ e.key := by
  intro hkey
  obtain ⟨f, hf, hfkey, -, hkeys⟩ := h.exists_expression
  rw [Expression.eq_of_key_eq hf he (hfkey.trans hkey), hparts] at hkeys
  subst hkeys
  cases h.composes

end Kind.Takes

/-! ## Kinds and keys of nodes -/

/-- The kinds of nodes and their keys, as sources write them: variables that sources can name,
literals, classes whose names go on behind no known class, nodes that read wrappers, and expressions
over parts. -/
inductive Kind.Writes (known : String → Prop) : Kind → String → Prop where
  | identifier {name : String} (h : IsName name.toList) : Writes known (.identifier name) name
  | symbol (value : Literal) : Writes known (.symbol value.render value.typeName) value.render
  | classRef {shortName q : String} (h : ∀ p, known p → ¬ (p.toList ++ ['.']) <+: q.toList) :
      Writes known (.classRef shortName q) (classKey q)
  | wrapper {name receiver : String} (hreceiver : Wrapped known receiver.toList)
      (hname : IsName name.toList) :
      Writes known (.field name true) ((Kind.field name true).key [receiver])
  | composed {kind : Kind} {keys : List String} (h : kind.Takes known keys) :
      Writes known kind (kind.key keys)

/-- An access that reads no wrapper is over parts. -/
theorem Kind.Writes.exists_composes (h : kind.Writes known key) (hkind : kind.hasReceiver = true)
    (hwrapper : ∀ name, kind ≠ .field name true) : ∃ count, kind.Composes count := by
  cases h with
  | identifier | symbol | classRef => cases hkind
  | wrapper => exact absurd rfl (hwrapper _)
  | composed htakes => exact ⟨_, htakes.composes⟩

/-- A node with the key of a node that reads a wrapper is such a node. -/
theorem Kind.Writes.isWrapper (h : kind.Writes known key) (hapart : Apart known)
    {receiver name : String} (hreceiver : Wrapped known receiver.toList)
    (hname : IsName name.toList)
    (hkey : key = (Kind.field name true).key [receiver]) : ∃ name, kind = .field name true := by
  have hkey : key.toList = receiver.toList ++ '.' :: '.' :: name.toList := by
    rw [hkey, Kind.toList_key_wrapper]
  cases h with
  | identifier hident =>
    have hkeyed : (Kind.identifier key).Keyed known key.toList :=
      keyed_atom (Expression.isAtom_ident hident) rfl rfl
    exact hkeyed.isWrapper _ _ hreceiver hname hkey
  | symbol value =>
    have hkeyed : (Kind.symbol value.render value.typeName).Keyed known
        (Expression.ofLiteral value).key.toList :=
      keyed_atom (Expression.isAtom_ofLiteral value) rfl rfl
    rw [Expression.key_ofLiteral] at hkeyed
    exact hkeyed.isWrapper _ _ hreceiver hname hkey
  | classRef hq =>
    rw [Kind.toList_classKey] at hkey
    exact absurd hkey (hreceiver.class_ne_of_forall hq)
  | wrapper => exact ⟨_, rfl⟩
  | composed htakes => exact absurd hkey (htakes.composed.spelled.ne_wrapper hapart hreceiver hname)

/-- A node with the key of an expression with parts is one of its kind. -/
theorem Kind.Writes.eq_of_takes (h : other.Writes known key) (hapart : Apart known)
    (htakes : kind.Takes known keys) (hkey : key = kind.key keys) : other = kind := by
  cases h with
  | identifier hname =>
    exact absurd hkey.symm (htakes.ne_atom (Expression.proper_ident hname) rfl)
  | symbol value =>
    rw [← Expression.key_ofLiteral] at hkey
    exact absurd hkey.symm
      (htakes.ne_atom (Expression.proper_ofLiteral value) (Expression.parts_ofLiteral value))
  | classRef hq =>
    refine absurd ?_ (htakes.composed.ne_class_of_forall hq)
    rw [← hkey, Kind.toList_classKey]
  | wrapper hreceiver hname =>
    refine absurd ?_ (htakes.composed.spelled.ne_wrapper hapart hreceiver hname)
    rw [← hkey, Kind.toList_key_wrapper]
  | composed htakes' => exact (htakes'.key_inj htakes hkey).1

end BindingPlan
