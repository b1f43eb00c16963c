import BindingPlan.Binding.Diagnostic
import BindingPlan.Graph.Seal

/-!
# Binding

A binder holds the graph of one layout and the names of its variables, and turns binding expressions
into nodes of the graph, so that equal parts of all bindings are shared.

* A bare name is a variable, or else an imported name, or else the name of a class.
* A chain of names such as `android.view.View.VISIBLE` refers to a class as far as it names one,
  unless it starts with a variable or an imported name.
* `a ?? b` stands for `a == null ? b : a`.
* Parentheses leave no trace.

Main definitions:

* `BinderM.lower`: the node of an expression tree.
* `BinderM.bindSource`: the root of a binding expression.
-/

namespace BindingPlan

/-- A graph that is built from bindings, with the variables by their names (`Binder`). -/
structure Binder where
  graph : Graph
  /-- The declared variables with their nodes, latest first. -/
  variableNodes : List (String × Nat)
deriving DecidableEq, Repr

namespace Binder

def empty : Binder := ⟨.empty, []⟩

instance : Inhabited Binder := ⟨empty⟩

def variableNode? (binder : Binder) (name : String) : Option Nat :=
  binder.variableNodes.lookup name

end Binder

/-- An operation on a binder. It may fail, and what it has done by then stays done. -/
abbrev BinderM (α : Type) := ExceptT Diagnostic (StateM Binder) α

/-- The outcome of a graph operation on the binder's graph. -/
def Binder.run {α : Type} (operation : GraphM α) (binder : Binder) :
    Except GraphError α × Binder :=
  let (outcome, graph) := operation.run.run binder.graph
  (outcome, { binder with graph := graph })

/-- Declares a variable, and makes its name known (`add_variable`). -/
def Binder.addVariable (name type : String) (binder : Binder) : Except GraphError Nat × Binder :=
  match binder.run (GraphM.declareVariable name type) with
  | (.ok id, binder) =>
    (.ok id, { binder with variableNodes := (name, id) :: binder.variableNodes })
  | (.error e, binder) => (.error e, binder)

/-- Imports a class into the graph (`add_import`). -/
def Binder.addImport (wanted qualified : String) (binder : Binder) :
    Except GraphError Nat × Binder :=
  binder.run (GraphM.addImport wanted qualified)

/-- The names of a chain such as `a.b.c` (`dotted_path`). -/
def Tree.dottedNames? : Tree → Option (List String)
  | .ident _ name => some [name]
  | .field _ receiver name => receiver.dottedNames?.map (· ++ [name.text])
  | _ => none

namespace BinderM

/-- Does an operation on the graph; an error is about the span unless it has one of its own. -/
def onGraph {α : Type} (span : Span) (operation : GraphM α) : BinderM α := do
  match (← get).run operation with
  | (.ok value, binder) =>
    set binder
    return value
  | (.error e, binder) =>
    set binder
    throw (.ofGraphError e span)

/-- Remembers where a node was seen. -/
def setSpan (id : Nat) (span : Span) : BinderM Unit :=
  modify fun binder => { binder with graph := binder.graph.setSpan id span }

/-- Whether a name was imported, and as what. -/
def imported? (name : String) : BinderM (Option String) :=
  return (← get).graph.imports.get? name

/-- The reference to a class, if there is one of that name (`static_receiver`). -/
def classNamed? (classes : ClassRegistry) (qualified : String) (span : Span) :
    BinderM (Option Nat) := do
  match classes.findClass qualified with
  | .error _ => return none
  | .ok type =>
    let id ← onGraph span (GraphM.classRefFor type)
    setSpan id span
    return some id

/-- The node of a bare name (`lower_name`). -/
def lowerName (classes : ClassRegistry) (name : String) (span : Span) : BinderM Nat := do
  match (← get).variableNode? name with
  | some id =>
    setSpan id span
    return id
  | none =>
    match ← classNamed? classes ((← imported? name).getD name) span with
    | some id => return id
    | none =>
      throw { Diagnostic.error DiagnosticCode.unknownIdentifier span
                ("unknown identifier `" ++ name ++ "`") with
              hint := some "declare it as a variable or import its class" }

/-- The class that a whole chain of names refers to, if it refers to one (`static_path`). -/
def classPath? (classes : ClassRegistry) (tree : Tree) : BinderM (Option Nat) := do
  match tree.dottedNames? with
  | none => return none
  | some names =>
    let root := names.headD ""
    if ((← get).variableNode? root).isSome || (← imported? root).isSome then return none
    else classNamed? classes (".".intercalate names) tree.span

/-- The node of an operator between two operands. -/
def binary (op : BinaryOp) (lhs rhs : Nat) : GraphM Nat :=
  GraphM.register (.binary op) [lhs, rhs]

/-- The node of `lhs ?? rhs` (`coalesce`). -/
def coalesce (lhs rhs : Nat) (span : Span) : GraphM Nat := do
  let null ← GraphM.symbol "null" TypeName.object
  let isNull ← binary (.compare .eq) lhs null
  modify fun graph => (graph.setSpan null span).setSpan isNull span
  GraphM.register .ternary [isNull, rhs, lhs]

/-- Registers the node of a tree whose parts are registered: the cases of `lower`. -/
def node (span : Span) (operation : GraphM Nat) : BinderM Nat := do
  let id ← onGraph span operation
  setSpan id span
  return id

mutual

/-- The node of an expression tree (`lower`); its parts are registered from left to right. -/
def lower (classes : ClassRegistry) : Tree → BinderM Nat
  | .group _ inner => lower classes inner
  | .literal span value => node span (GraphM.symbol value.render value.typeName)
  | .ident span name => lowerName classes name span
  | .field span receiver name => do
    match ← classPath? classes (.field span receiver name) with
    | some id => return id
    | none =>
      let receiver ← lower classes receiver
      node span (GraphM.register (.field name.text false) [receiver])
  | .call span target name args => do
    let target ← lower classes target
    let args ← lowerAll classes args
    node span (GraphM.register (.call name.text) (target :: args))
  | .unary span op operand => do
    let operand ← lower classes operand
    node span (GraphM.register (.unary op) [operand])
  | .binary span op lhs rhs => do
    let lhs ← lower classes lhs
    let rhs ← lower classes rhs
    node span (binary op lhs rhs)
  | .ternary span predicate ifTrue ifFalse => do
    let predicate ← lower classes predicate
    let ifTrue ← lower classes ifTrue
    let ifFalse ← lower classes ifFalse
    node span (GraphM.register .ternary [predicate, ifTrue, ifFalse])
  | .coalesce span lhs rhs => do
    let lhs ← lower classes lhs
    let rhs ← lower classes rhs
    node span (coalesce lhs rhs span)

def lowerAll (classes : ClassRegistry) : List Tree → BinderM (List Nat)
  | [] => return []
  | tree :: trees => do
    let id ← lower classes tree
    let ids ← lowerAll classes trees
    return id :: ids

end

/-- Adds a tree to the graph as the root of a binding, and classifies it: the end of `parse`. -/
def bindTree (classes : ClassRegistry) (tree : Tree) : BinderM Nat := do
  let root ← lower classes tree
  onGraph tree.span (GraphM.bind root)
  let _ ← onGraph tree.span (GraphM.classify classes root)
  return root

/-- Adds a binding expression to the graph (`parse`). Of several errors of its text the first
counts, those of the lexer before that of the parser. -/
def bindSource (classes : ClassRegistry) (source : String) : BinderM Nat := do
  let parsed := parse source
  match parsed.lexErrors, parsed.result with
  | e :: _, _ => throw (.ofLexError e)
  | [], .error e => throw (.ofSyntaxError e)
  | [], .ok tree => bindTree classes tree

end BinderM
end BindingPlan
