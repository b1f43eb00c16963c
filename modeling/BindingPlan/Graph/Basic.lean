import BindingPlan.Class.Registry
import BindingPlan.Graph.Kind
import BindingPlan.Import.Table
import BindingPlan.Schedule.Plan
import BindingPlan.Text.Span

/-!
# Expression graphs

The expressions of one layout, each registered once: a node is found by its key, and two expressions
with one key are one node. Children are the nodes that a node is made of, parents the nodes that it
is part of. A graph is open until it is sealed; then its structure is frozen, and it carries its
read net and how far the reads have come.

Operations that fail keep what they did before: a registered node stays registered.

Main definitions:

* `Graph`, and `GraphM` for operations on one.
* `GraphM.register`: the node for a kind over children.
* `GraphM.declareVariable`, `symbol`, `addImport`, `classRefFor`, `bind`: the other ways to build a
  graph.
-/

namespace BindingPlan

/-- One expression of a graph (`Expr`). -/
structure Node where
  kind : Kind
  key : String
  children : List Nat
  /-- The nodes that have this one as a child, in the order in which they came to have it. -/
  parents : List Nat
  /-- Where the expression was first seen. -/
  span : Option Span
  /-- The type that was declared for a variable, a literal or a class. -/
  declaredType : Option String
  /-- The root of a binding. -/
  isBinding : Bool
  resolvedType : Option ClassType
  /-- The member that a field access or call resolved to. -/
  member : Option Member
  /-- Whether the value can change; unknown until the node is classified. -/
  dynamic : Option Bool
deriving DecidableEq, Repr

/-- A node as it is registered (`new` of `Expr`). -/
def Node.new (kind : Kind) (key : String) (children : List Nat) : Node :=
  ⟨kind, key, children, [], none, none, false, none, none, none⟩

instance : Inhabited Node := ⟨.new (.identifier "") "" []⟩

/-- Whether the value can change (`is_dynamic`); a node that is not classified counts as
constant. -/
def Node.isDynamic (node : Node) : Bool :=
  node.dynamic.getD false

/-- The node that decides the branch of a conditional (`predicate`). -/
def Node.predicate? (node : Node) : Option Nat :=
  if node.kind.isConditional then node.children.head? else none

/-- Whether a node is the literal `null` (`is_null_literal`). -/
def Node.isNullLiteral (node : Node) : Bool :=
  match node.kind with
  | .symbol text _ => text == "null"
  | _ => false

/-- Adds a parent unless it is one. -/
def Node.addParent (parent : Nat) (node : Node) : Node :=
  if parent ∈ node.parents then node else { node with parents := node.parents ++ [parent] }

/-- A node after a change of anything but its key. -/
abbrev Node.changed (change : Node → Node) (node : Node) : Node :=
  { change node with key := node.key }

/-- The frozen net of a sealed graph, and how far its reads have come. -/
structure Sealed where
  net : Net
  progress : Progress
deriving DecidableEq, Repr

/-! ## The table of keys -/

/-- The table leads from each key to the first node that has it, and from no other key to any. -/
def TableInStep (nodes : Array Node) (byKey : List (String × Nat)) : Prop :=
  ∀ key, byKey.lookup key = nodes.findIdx? (·.key == key)

section

variable {nodes : Array Node} {byKey : List (String × Nat)}

theorem tableInStep_empty : TableInStep #[] [] := by
  intro key
  simp

/-- A node that is added at the end is entered at the end. -/
theorem TableInStep.push (h : TableInStep nodes byKey) (node : Node) :
    TableInStep (nodes.push node) (byKey ++ [(node.key, nodes.size)]) := by
  intro key
  rw [List.lookup_append, h key, Array.findIdx?_push, List.lookup_cons, BEq.comm]
  cases node.key == key <;> rfl

/-- The first node with a key stands where it stood, as keys do not change. -/
theorem TableInStep.modify (h : TableInStep nodes byKey) (id : Nat) (change : Node → Node) :
    TableInStep (nodes.modify id (.changed change)) byKey := by
  intro key
  have hkeys : (nodes.modify id (.changed change)).map Node.key = nodes.map Node.key := by
    refine Array.ext (by simp) fun i hi hi' => ?_
    rw [Array.getElem_map, Array.getElem_map, Array.getElem_modify]
    split <;> rfl
  have hfirst (nodes : Array Node) : nodes.findIdx? (·.key == key) =
      (nodes.map Node.key).findIdx? (· == key) := by
    rw [Array.findIdx?_map]
    rfl
  rw [h key, hfirst, hfirst, hkeys]

end

/-- The nodes of a layout, with the table that finds them by their keys (`Model`). -/
structure Graph where
  nodes : Array Node
  /-- Where the node with a key stands. -/
  byKey : List (String × Nat)
  tableInStep : TableInStep nodes byKey
  imports : ImportTable
  /-- Present once the graph is sealed. -/
  sealed? : Option Sealed
deriving DecidableEq, Repr

/-- Why an operation on a graph fails (`ModelError`). -/
inductive GraphError where
  | alreadySealed
  | notSealed
  | registerAfterSeal (key : String)
  | resolution (key : String) (span : Option Span) (cause : ResolveError)
  | notDynamic (key : String)
  | dependencyCycle (key : String)
  | noReadOrder (keys : List String)
  /-- The node has fewer children than its kind needs. -/
  | missingOperand (key : String)
deriving DecidableEq, Repr

def GraphError.message : GraphError → String
  | .alreadySealed => "model is already sealed"
  | .notSealed => "model must be sealed before scheduling"
  | .registerAfterSeal key => "cannot register `" ++ key ++ "`: the model is sealed"
  | .resolution key _ cause => "cannot resolve `" ++ key ++ "`: " ++ cause.message
  | .notDynamic key => "`" ++ key ++ "` is not dynamic and cannot be scheduled"
  | .dependencyCycle key => "dependency cycle through `" ++ key ++ "`"
  | .noReadOrder keys => "no read order exists within the pass for: " ++ ", ".intercalate keys
  | .missingOperand key => "`" ++ key ++ "` lacks an operand"

namespace Graph

def empty : Graph := ⟨#[], [], tableInStep_empty, .empty, none⟩

instance : Inhabited Graph := ⟨empty⟩

/-- Number of nodes (`len`). -/
def size (graph : Graph) : Nat :=
  graph.nodes.size

/-- The node with a number (`expr`). -/
def node (graph : Graph) (id : Nat) : Node :=
  graph.nodes.getD id default

def keyOf (graph : Graph) (id : Nat) : String :=
  (graph.node id).key

/-- Whether the graph is frozen (`is_sealed`). -/
def isSealed (graph : Graph) : Bool :=
  graph.sealed?.isSome

/-- All nodes in registration order. -/
def ids (graph : Graph) : List Nat :=
  List.range graph.size

/-- The node with the key, by the table (`find`). -/
def find? (graph : Graph) (key : String) : Option Nat :=
  graph.byKey.lookup key

/-- The roots of bindings (`bindings`). -/
def bindings (graph : Graph) : List Nat :=
  graph.ids.filter fun id => (graph.node id).isBinding

/-- Changes one node, but not its key. -/
def modify (graph : Graph) (id : Nat) (change : Node → Node) : Graph :=
  { graph with
    nodes := graph.nodes.modify id (.changed change)
    tableInStep := graph.tableInStep.modify id change }

/-- Adds a node at the end and enters it in the table. -/
def append (graph : Graph) (node : Node) : Graph :=
  { graph with
    nodes := graph.nodes.push node
    byKey := graph.byKey ++ [(node.key, graph.size)]
    tableInStep := graph.tableInStep.push node }

/-- Adds a node and makes it a parent of its children: the end of `register`, for a new key. -/
def push (graph : Graph) (node : Node) : Graph :=
  let id := graph.size
  let linked := node.children.foldl (fun graph child => graph.modify child (.addParent id)) graph
  linked.append node

/-- Replaces the child at a position (`replace_child`); a node that is no longer a child loses its
parent. -/
def replaceChild (graph : Graph) (parent position child : Nat) : Graph :=
  match (graph.node parent).children[position]? with
  | none => graph
  | some old =>
    if old = child then graph
    else
      let children := (graph.node parent).children.set position child
      let graph := graph.modify parent fun node => { node with children := children }
      let graph :=
        if old ∈ children then graph
        else graph.modify old fun node =>
          { node with parents := node.parents.filter (· != parent) }
      graph.modify child (.addParent parent)

/-- The error of a node that cannot be resolved (`resolution_error`). -/
def resolutionError (graph : Graph) (id : Nat) (cause : ResolveError) : GraphError :=
  .resolution (graph.keyOf id) (graph.node id).span cause

/-- Remembers where a node was seen, unless it was seen before (`set_span`). -/
def setSpan (graph : Graph) (id : Nat) (span : Span) : Graph :=
  graph.modify id fun node => { node with span := node.span.or (some span) }

end Graph

/-! ## Operations -/

/-- An operation on a graph. It may fail, and what it has done by then stays done. -/
abbrev GraphM (α : Type) := ExceptT GraphError (StateM Graph) α

namespace GraphM

/-- Fails once the graph is sealed (`ensure_open`). -/
def ensureOpen : GraphM Unit := do
  if (← get).isSealed then throw .alreadySealed

/-- Changes one node. -/
def modifyNode (id : Nat) (change : Node → Node) : GraphM Unit :=
  modify fun graph => graph.modify id change

/-- The node for a kind over children (`register`): the one with its key if there is one. -/
def register (kind : Kind) (children : List Nat) : GraphM Nat := do
  let graph ← get
  let key := kind.key (children.map graph.keyOf)
  match graph.find? key with
  | some id => return id
  | none =>
    if graph.isSealed then throw (.registerAfterSeal key)
    set (graph.push (.new kind key children))
    return graph.size

/-- The node of a variable by its name (`identifier`). -/
def identifier (name : String) : GraphM Nat :=
  register (.identifier name) []

/-- A variable of the layout with its type (`declare_variable`). -/
def declareVariable (name type : String) : GraphM Nat := do
  let id ← identifier name
  ensureOpen
  modifyNode id fun node => { node with declaredType := some type }
  return id

/-- A literal with its normal text and its type (`symbol`). -/
def symbol (text type : String) : GraphM Nat := do
  let id ← register (.symbol text type) []
  modifyNode id fun node => { node with declaredType := some type }
  return id

/-- The reference to a class that was imported under a name (`static_identifier`). -/
def classRef (shortName qualified : String) : GraphM Nat := do
  let id ← register (.classRef shortName qualified) []
  modifyNode id fun node => { node with declaredType := some qualified }
  return id

/-- Imports a class and refers to it (`add_import`). -/
def addImport (wanted qualified : String) : GraphM Nat := do
  ensureOpen
  let graph ← get
  let (name, imports) := graph.imports.add wanted qualified
  set { graph with imports := imports }
  classRef name qualified

/-- The reference to a class, which is imported on demand (`static_identifier_for`). -/
def classRefFor (type : ClassType) : GraphM Nat := do
  let graph ← get
  match graph.find? (Kind.classKey type.name) with
  | some id => return id
  | none =>
    if graph.isSealed then throw (.registerAfterSeal (Kind.classKey type.name))
    let (name, imports) := graph.imports.nameFor type.name (TypeName.simple type.name)
    set { graph with imports := imports }
    let id ← classRef name type.name
    modifyNode id fun node => { node with resolvedType := node.resolvedType.or (some type) }
    return id

/-- Marks a node as the root of a binding (`bind`). -/
def bind (id : Nat) : GraphM Unit := do
  ensureOpen
  modifyNode id fun node => { node with isBinding := true }

end GraphM
end BindingPlan
