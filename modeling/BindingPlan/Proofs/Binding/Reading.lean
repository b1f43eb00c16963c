import BindingPlan.Binding.Binder
import BindingPlan.Proofs.Graph.Meaning
import BindingPlan.Proofs.Tree.Parts

/-!
# Readings of trees

A reading of a tree is the key of its node and the meaning. Which class or variable a name refers to
is up to the binder, and so a tree has no reading if one of its names is not known there.

Main definitions:

* `Tree.read?`: the reading of a tree, if all names in it are known.
* `Tree.readings`: the readings of everything that is registered for a tree.
-/

namespace BindingPlan

/-- The key of the node of an expression, and what the expression means. -/
structure Reading where
  key : String
  meaning? : Option Meaning
deriving DecidableEq, Repr

namespace Reading

/-- The reading of an expression over the readings of its parts. -/
def of (classes : ClassRegistry) (kind : Kind) (parts : List Reading) : Reading :=
  ⟨kind.key (parts.map key), (kind.type? classes (parts.map meaning?)).map kind.meaning⟩

def ofClass (classes : ClassRegistry) (name : String) : Reading :=
  of classes (.classRef "" name) []

def null (classes : ClassRegistry) : Reading :=
  of classes (.symbol "null" TypeName.object) []

/-- Whether the expression is `null`. -/
def isNull (classes : ClassRegistry) (lhs : Reading) : Reading :=
  of classes (.binary (.compare .eq)) [lhs, null classes]

end Reading

/-- The reading of a variable: the type is that which was declared last. -/
def Binder.readVariable? (classes : ClassRegistry) (binder : Binder) (name : String) :
    Option Reading := do
  let id ← binder.variableNode? name
  let type := (binder.graph.node id).declaredType.bind fun type =>
    (classes.findClass type).toOption
  return ⟨name, type.map (Kind.identifier name).meaning⟩

/-- The class that a name or a chain of names refers to, if it does. -/
def Binder.class? (classes : ClassRegistry) (binder : Binder) : Tree → Option ClassType
  | .ident _ name =>
    if (binder.variableNode? name).isSome then none
    else (classes.findClass ((binder.graph.imports.get? name).getD name)).toOption
  | .field span receiver name => do
    let names ← (Tree.field span receiver name).dottedNames?
    if (binder.variableNode? (names.headD "")).isSome ||
        (binder.graph.imports.get? (names.headD "")).isSome then none
    else (classes.findClass (".".intercalate names)).toOption
  | _ => none

mutual

/-- The reading of a tree in a binder; `none` if a name in it is not known. -/
def Tree.read? (classes : ClassRegistry) (binder : Binder) : Tree → Option Reading
  | .literal _ value => some (.of classes (.symbol value.render value.typeName) [])
  | .ident span name =>
    match binder.class? classes (.ident span name) with
    | some type => some (.ofClass classes type.name)
    | none => binder.readVariable? classes name
  | .field span receiver name =>
    match binder.class? classes (.field span receiver name) with
    | some type => some (.ofClass classes type.name)
    | none => do return .of classes (.field name.text false) [← receiver.read? classes binder]
  | .call _ target name args => do
    let target ← target.read? classes binder
    let args ← Tree.readAll? classes binder args
    return .of classes (.call name.text) (target :: args)
  | .unary _ op operand => do return .of classes (.unary op) [← operand.read? classes binder]
  | .binary _ op lhs rhs => do
    let lhs ← lhs.read? classes binder
    let rhs ← rhs.read? classes binder
    return .of classes (.binary op) [lhs, rhs]
  | .ternary _ predicate ifTrue ifFalse => do
    let predicate ← predicate.read? classes binder
    let ifTrue ← ifTrue.read? classes binder
    let ifFalse ← ifFalse.read? classes binder
    return .of classes .ternary [predicate, ifTrue, ifFalse]
  | .coalesce _ lhs rhs => do
    let lhs ← lhs.read? classes binder
    let rhs ← rhs.read? classes binder
    return .of classes .ternary [.isNull classes lhs, rhs, lhs]
  | .group _ inner => inner.read? classes binder

def Tree.readAll? (classes : ClassRegistry) (binder : Binder) :
    List Tree → Option (List Reading)
  | [] => some []
  | tree :: trees => do
    let first ← tree.read? classes binder
    let rest ← Tree.readAll? classes binder trees
    return first :: rest

end

/-- The readings of what is registered for a tree over its parts. -/
def Tree.ownReadings (classes : ClassRegistry) (binder : Binder) (tree : Tree) : List Reading :=
  match tree, tree.read? classes binder with
  | _, none => []
  | .coalesce _ lhs _, some reading =>
    let isNull := (lhs.read? classes binder).map (Reading.isNull classes)
    Reading.null classes :: (isNull.toList ++ [reading])
  | _, some reading => [reading]

mutual

/-- The readings of everything that is registered for a tree. -/
def Tree.readings (classes : ClassRegistry) (binder : Binder) : Tree → List Reading
  | .literal span value => ownReadings classes binder (.literal span value)
  | .ident span name => ownReadings classes binder (.ident span name)
  | .field span receiver name =>
    receiver.readings classes binder ++ ownReadings classes binder (.field span receiver name)
  | .call span target name args =>
    target.readings classes binder ++ (Tree.readingsAll classes binder args ++
      ownReadings classes binder (.call span target name args))
  | .unary span op operand =>
    operand.readings classes binder ++ ownReadings classes binder (.unary span op operand)
  | .binary span op lhs rhs =>
    lhs.readings classes binder ++ (rhs.readings classes binder ++
      ownReadings classes binder (.binary span op lhs rhs))
  | .ternary span predicate ifTrue ifFalse =>
    predicate.readings classes binder ++ (ifTrue.readings classes binder ++
      (ifFalse.readings classes binder ++
        ownReadings classes binder (.ternary span predicate ifTrue ifFalse)))
  | .coalesce span lhs rhs =>
    lhs.readings classes binder ++ (rhs.readings classes binder ++
      ownReadings classes binder (.coalesce span lhs rhs))
  | .group span inner =>
    inner.readings classes binder ++ ownReadings classes binder (.group span inner)

def Tree.readingsAll (classes : ClassRegistry) (binder : Binder) : List Tree → List Reading
  | [] => []
  | tree :: trees => tree.readings classes binder ++ Tree.readingsAll classes binder trees

end

variable {classes : ClassRegistry} {binder : Binder} {reading : Reading}

theorem Tree.mem_readingsAll_of_mem {tree : Tree} {trees : List Tree} (htree : tree ∈ trees)
    (h : reading ∈ tree.readings classes binder) :
    reading ∈ Tree.readingsAll classes binder trees := by
  induction htree with
  | head => exact List.mem_append_left _ h
  | tail _ _ ih => exact List.mem_append_right _ ih

theorem Tree.mem_readings_of_mem_parts {part tree : Tree} (hpart : part ∈ tree.parts)
    (h : reading ∈ part.readings classes binder) : reading ∈ tree.readings classes binder := by
  cases tree with
  | literal | ident => cases hpart
  | call span target member args =>
    rcases List.mem_cons.mp hpart with rfl | hpart
    · exact List.mem_append_left _ h
    · exact List.mem_append_right _ (List.mem_append_left _ (mem_readingsAll_of_mem hpart h))
  | _ =>
    simp only [parts, List.mem_cons, List.not_mem_nil, or_false] at hpart
    grind [readings]

theorem Tree.mem_readings_of_own {tree : Tree} (h : reading ∈ tree.ownReadings classes binder) :
    reading ∈ tree.readings classes binder := by
  cases tree with
  | literal | ident => exact h
  | _ => grind [readings]

theorem Tree.mem_ownReadings {tree : Tree} (h : tree.read? classes binder = some reading) :
    reading ∈ tree.ownReadings classes binder := by
  unfold ownReadings
  split
  · next hnone => cases hnone.symm.trans h
  · next hsome =>
    cases hsome.symm.trans h
    exact List.mem_cons_of_mem _ (List.mem_append_right _ (List.mem_singleton_self _))
  · next hsome =>
    cases hsome.symm.trans h
    exact List.mem_singleton_self _

theorem Tree.mem_readings {tree : Tree} (h : tree.read? classes binder = some reading) :
    reading ∈ tree.readings classes binder :=
  mem_readings_of_own (mem_ownReadings h)

/-! ## Parts -/

/-- The reading of a tree over the readings of its parts, unless it is a class. -/
def Tree.combine? (classes : ClassRegistry) (binder : Binder) :
    Tree → List Reading → Option Reading
  | .literal _ value, _ => some (.of classes (.symbol value.render value.typeName) [])
  | .ident _ name, _ => binder.readVariable? classes name
  | .field _ _ name, parts => some (.of classes (.field name.text false) parts)
  | .call _ _ name _, parts => some (.of classes (.call name.text) parts)
  | .unary _ op _, parts => some (.of classes (.unary op) parts)
  | .binary _ op _ _, parts => some (.of classes (.binary op) parts)
  | .ternary _ _ _ _, parts => some (.of classes .ternary parts)
  | .coalesce _ _ _, [lhs, rhs] => some (.of classes .ternary [.isNull classes lhs, rhs, lhs])
  | .coalesce _ _ _, _ => none
  | .group _ _, parts => parts.head?

/-- A tree is read as a class, or over the readings of its parts. -/
theorem Tree.read?_eq (tree : Tree) : tree.read? classes binder =
    match binder.class? classes tree with
    | some type => some (.ofClass classes type.name)
    | none => (readAll? classes binder tree.parts).bind (tree.combine? classes binder) := by
  cases tree with
  | literal | ident => rw [read?]; rfl
  | field span receiver name =>
    rw [read?]
    split
    · rfl
    · simp only [parts, readAll?]
      cases receiver.read? classes binder <;> rfl
  | call span target name args =>
    simp only [read?, parts, readAll?, Binder.class?]
    cases target.read? classes binder with
    | none => rfl
    | some target => cases readAll? classes binder args <;> rfl
  | unary span op operand =>
    simp only [read?, parts, readAll?, Binder.class?]
    cases operand.read? classes binder <;> rfl
  | binary span op lhs rhs =>
    simp only [read?, parts, readAll?, Binder.class?]
    cases lhs.read? classes binder with
    | none => rfl
    | some lhs => cases rhs.read? classes binder <;> rfl
  | ternary span predicate ifTrue ifFalse =>
    simp only [read?, parts, readAll?, Binder.class?]
    cases predicate.read? classes binder with
    | none => rfl
    | some predicate =>
      cases ifTrue.read? classes binder with
      | none => rfl
      | some ifTrue => cases ifFalse.read? classes binder <;> rfl
  | coalesce span lhs rhs =>
    simp only [read?, parts, readAll?, Binder.class?]
    cases lhs.read? classes binder with
    | none => rfl
    | some lhs => cases rhs.read? classes binder <;> rfl
  | group span inner =>
    simp only [read?, parts, readAll?, Binder.class?]
    cases inner.read? classes binder <;> rfl

theorem Tree.readAll?_cons_eq_some {tree : Tree} {trees : List Tree} {readings : List Reading} :
    Tree.readAll? classes binder (tree :: trees) = some readings ↔ ∃ first rest,
      tree.read? classes binder = some first ∧ Tree.readAll? classes binder trees = some rest ∧
        readings = first :: rest := by
  rw [readAll?]
  cases tree.read? classes binder with
  | none => simp
  | some first =>
    cases Tree.readAll? classes binder trees with
    | none => simp
    | some rest => simp [eq_comm]

theorem Tree.length_of_readAll? {trees : List Tree} {readings : List Reading}
    (h : Tree.readAll? classes binder trees = some readings) : readings.length = trees.length := by
  induction trees generalizing readings with
  | nil =>
    cases h
    rfl
  | cons tree trees ih =>
    obtain ⟨first, rest, -, hrest, rfl⟩ := readAll?_cons_eq_some.mp h
    exact congrArg (· + 1) (ih hrest)

end BindingPlan
