import BindingPlan.Graph.Basic

/-!
# Resolution and classification

The type of an expression is looked up once. Two changes of the graph happen on the way:

* A static member that is reached through an instance is moved to the reference of the class.
* A field that holds an observable wrapper is split: a new node reads the wrapper, and the node
  itself reads the wrapper's value through `get()`.

Neither changes a key.

An expression is dynamic if its value can change: variables and calls are; classes and literals are
not; operators are if an operand is; a field access is if it goes through a getter, or if its field
is an instance field of a dynamic receiver or not final.

Both walks go down along children. On a graph without cycles the bounds on the depth of the walks
are not reached.

Main definitions:

* `GraphM.resolve`: the type of a node.
* `GraphM.classify`: whether a node is dynamic.
-/

namespace BindingPlan
namespace GraphM

/-- The type of an arithmetic expression (`math_type`): text if it adds to text; otherwise that of
the operand with the higher rank, the left one if neither is higher; and `int` for the lowest
rank. -/
def mathType (op : MathOp) (lhs rhs : ClassType) : ClassType :=
  if op = .add && (lhs.isString || rhs.isString) then .plain TypeName.string
  else
    match TypeName.numericRank? lhs.name, TypeName.numericRank? rhs.name with
    | some l, some r =>
      if l = 0 ∧ r = 0 then .plain TypeName.int else if l < r then rhs else lhs
    | _, _ => lhs

/-- The result of a look-up for a node. -/
def lookup {α : Type} (id : Nat) (result : Except ResolveError α) : GraphM α := do
  match result with
  | .ok value => return value
  | .error cause => throw ((← get).resolutionError id cause)

/-- The child of a node at a position. -/
def operand (node : Node) (position : Nat) : GraphM Nat := do
  match node.children[position]? with
  | some child => return child
  | none => throw (.missingOperand node.key)

/-- Whether a node refers to a class (`is_static_identifier`). -/
def isClassRef (id : Nat) : GraphM Bool :=
  return ((← get).node id).kind.isClassRef

/-- Moves a static member that was reached through an instance to the reference of the class, as
`resolve_field` and `resolve_method` do. -/
def moveToClass (id : Nat) (member : Member) (receiverType : ClassType) (isStatic : Bool) :
    GraphM Unit := do
  if member.isStatic && !isStatic then
    let ref ← classRefFor receiverType
    modify fun graph => graph.replaceChild id 0 ref

/-- Splits an access to a field that holds an observable wrapper, as `resolve_field` does; gives the
type of the wrapper's value. -/
def splitWrapper (classes : ClassRegistry) (id : Nat) (name : String) (wrapper : Member) :
    GraphM ClassType := do
  let receiver ← operand ((← get).node id) 0
  let inner ← register (.field name true) [receiver]
  let span := ((← get).node id).span
  modifyNode inner fun node =>
    if node.resolvedType.isNone then
      { node with
        resolvedType := some wrapper.type
        member := some wrapper
        span := node.span.or span }
    else node
  modify fun graph => graph.replaceChild id 0 inner
  let value ← lookup id (classes.findMember wrapper.type "get" false)
  modifyNode id fun node => { node with member := some value }
  return value.type

/-- The type of a field access, given how to resolve children (`resolve_field`). -/
def resolveField (classes : ClassRegistry) (resolveChild : Nat → GraphM ClassType) (id : Nat)
    (name : String) : GraphM ClassType := do
  let receiver ← operand ((← get).node id) 0
  let receiverType ← resolveChild receiver
  let isStatic ← isClassRef receiver
  let member ← lookup id (classes.findMember receiverType name isStatic)
  moveToClass id member receiverType isStatic
  if member.type.observableField then splitWrapper classes id name member
  else
    modifyNode id fun node => { node with member := some member }
    return member.type

/-- The type of a call, given how to resolve children (`resolve_method`). -/
def resolveCall (classes : ClassRegistry) (resolveChild : Nat → GraphM ClassType) (id : Nat)
    (name : String) : GraphM ClassType := do
  let node := (← get).node id
  let target ← operand node 0
  let targetType ← resolveChild target
  let args ← (node.children.drop 1).mapM resolveChild
  let isStatic ← isClassRef target
  let member ← lookup id (classes.findMethod targetType name args isStatic)
  moveToClass id member targetType isStatic
  modifyNode id fun node => { node with member := some member }
  return member.type

/-- The type of a node by its kind, given how to resolve children: the cases of `resolve`. -/
def resolveKind (classes : ClassRegistry) (resolveChild : Nat → GraphM ClassType) (id : Nat) :
    GraphM ClassType := do
  let node := (← get).node id
  match node.kind with
  | .identifier name =>
    match node.declaredType with
    | none => lookup id (.error (.untyped name))
    | some type => lookup id (classes.findClass type)
  | .classRef _ qualified => lookup id (classes.findClass qualified)
  | .symbol _ type => lookup id (classes.findClass type)
  | .field name _ => resolveField classes resolveChild id name
  | .call name => resolveCall classes resolveChild id name
  | .binary (.math op) => do
    let lhs ← operand node 0 >>= resolveChild
    let rhs ← operand node 1 >>= resolveChild
    return mathType op lhs rhs
  | .binary (.compare _) | .binary (.logical _) | .unary .not => do
    let _ ← node.children.mapM resolveChild
    return .plain TypeName.boolean
  | .unary .neg => operand node 0 >>= resolveChild
  | .ternary => do
    let _ ← operand node 0 >>= resolveChild
    let whenTrue ← operand node 1
    let trueType ← resolveChild whenTrue
    let falseType ← operand node 2 >>= resolveChild
    return if ((← get).node whenTrue).isNullLiteral then falseType else trueType

/-- The type of a node, with a bound on the depth of the walk (`resolve`). -/
def resolveWithin (classes : ClassRegistry) : Nat → Nat → GraphM ClassType
  | 0, id => do throw (.dependencyCycle ((← get).keyOf id))
  | bound + 1, id => do
    match ((← get).node id).resolvedType with
    | some type => return type
    | none =>
      let type ← resolveKind classes (resolveWithin classes bound) id
      modifyNode id fun node => { node with resolvedType := some type }
      return type

/-- The type of a node (`resolve`). -/
def resolve (classes : ClassRegistry) (id : Nat) : GraphM ClassType := do
  resolveWithin classes ((← get).size + 1) id

/-! ## Classification -/

/-- Whether a field access is dynamic, given whether its receiver is. -/
def fieldIsDynamic (member : Option Member) (receiverIsDynamic : Bool) : Bool :=
  match member with
  | some member =>
    if member.kind = .field then
      if receiverIsDynamic then !member.isStatic || member.isDynamic else member.isDynamic
    else true
  | none => true

/-- Whether a node of a kind is dynamic, given its member and whether its children are: the cases of
`classify`. -/
def kindIsDynamic (kind : Kind) (member : Option Member) (children : List Bool) : Bool :=
  match kind with
  | .identifier _ | .call _ => true
  | .classRef _ _ | .symbol _ _ => false
  | .field _ _ => fieldIsDynamic member (children.headD false)
  | .binary _ | .unary _ | .ternary => children.any id

/-- Whether a node is dynamic, with a bound on the depth of the walk (`classify`). -/
def classifyWithin (classes : ClassRegistry) : Nat → Nat → GraphM Bool
  | 0, id => do throw (.dependencyCycle ((← get).keyOf id))
  | bound + 1, id => do
    match ((← get).node id).dynamic with
    | some dynamic => return dynamic
    | none =>
      let _ ← resolve classes id
      let node := (← get).node id
      let children ← node.children.mapM (classifyWithin classes bound)
      let dynamic := kindIsDynamic node.kind node.member children
      modifyNode id fun node => { node with dynamic := some dynamic }
      return dynamic

/-- Whether a node is dynamic (`classify`). All types below it are looked up first; then no link
below it changes any more, so that on a graph without cycles no walk down is longer than the number
of nodes. -/
def classify (classes : ClassRegistry) (id : Nat) : GraphM Bool := do
  let _ ← resolve classes id
  classifyWithin classes ((← get).size + 1) id

/-- Classifies so many nodes from one on, as far as they exist. -/
def classifyFrom (classes : ClassRegistry) : Nat → Nat → GraphM Unit
  | 0, _ => return
  | count + 1, id => do
    if id < (← get).size then
      let _ ← classify classes id
      classifyFrom classes count (id + 1)

/-- Classifies all nodes, and then those that were registered on the way: the loop of `seal`. These
come with their type, so that classifying them registers no more. -/
def classifyAll (classes : ClassRegistry) : GraphM Unit := do
  let written := (← get).size
  classifyFrom classes written 0
  classifyFrom classes ((← get).size - written) written

end GraphM
end BindingPlan
