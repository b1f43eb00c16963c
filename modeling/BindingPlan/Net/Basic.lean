import BindingPlan.Flag.Table

/-!
# Read nets

What is left of a sealed expression graph for planning its reads: the nodes are numbers, and a
dependency leads from a node to one whose value it needs. A dependency of a conditional on one of
its branches is guarded: it applies only if the predicate took that branch.

A net also holds, for every node, the flags that make its value invalid and the flags under which
any consumer may need it.

Main definitions:

* `Net`: the net, with its flag table and an order that puts targets before the nodes that need
  them.
* `sweep`: computes a value for every node along an order.
-/

namespace BindingPlan

/-- The condition under which a dependency applies (`Guard`). -/
structure Guard where
  predicate : Nat
  branch : Bool
deriving DecidableEq, Repr

/-- An edge from a node to one whose value it needs (`Dependency`). -/
structure Dependency where
  target : Nat
  /-- The value is needed in the same step, before the node itself: receivers and predicates. -/
  mandatory : Bool
  guard : Option Guard
deriving DecidableEq, Repr

/-- An edge seen from its target (`DependantRef`): the node that needs it, and the position of the
edge there. -/
structure Dependant where
  node : Nat
  edge : Nat
deriving DecidableEq, Repr

/-- What sealing adds to an expression (`Expr`). -/
structure NetNode where
  isDynamic : Bool
  /-- The root of a binding, whose value is wanted for its own sake. -/
  isBinding : Bool
  /-- The flag that is set when the node itself changes. -/
  flag : Option Nat
  /-- The first flag of the pair that stands for the branches of a conditional. -/
  requirementBase : Option Nat
  /-- The node that decides the branch of a conditional. -/
  predicate : Option Nat
  dependencies : List Dependency
  dependants : List Dependant
  /-- The flags that make the value invalid. -/
  invalid : FlagSet
  /-- The flags under which any consumer may need the value, where the requirement of a branch
  stands for a consumer behind a guard. -/
  conditionalRead : FlagSet
deriving DecidableEq, Repr

instance : Inhabited NetNode := ⟨⟨false, false, none, none, none, [], [], .empty, .empty⟩⟩

/-- The flag that stands for a branch of a conditional (`requirement_flag`). -/
def NetNode.requirementFlag? (node : NetNode) (branch : Bool) : Option Nat :=
  node.requirementBase.map (requirementFlag · branch)

/-- The flag that stands for a branch, as a set: empty for a node that is no conditional. -/
def NetNode.requirementSet (node : NetNode) (branch : Bool) : FlagSet :=
  match node.requirementFlag? branch with
  | some flag => .single flag
  | none => .empty

/-- The nodes of a sealed graph with their edges and flags: what `seal` adds to `Model`. -/
structure Net where
  nodes : Array NetNode
  /-- All nodes, targets before the nodes that need them. -/
  order : List Nat
  flags : FlagTable
  /-- The flag that invalidates everything. -/
  allFlag : Nat
  /-- Flags below this one are set from outside; the others stand for branches. -/
  limit : Nat
deriving DecidableEq, Repr

namespace Net

def size (net : Net) : Nat :=
  net.nodes.size

def node (net : Net) (i : Nat) : NetNode :=
  net.nodes.getD i default

/-- All nodes in registration order. -/
def ids (net : Net) : List Nat :=
  List.range net.size

end Net

/-- Computes a value for every node along an order, each from the values computed before it; nodes
that do not occur keep the initial value. -/
def sweep {α : Type} (size : Nat) (initial : α) (order : List Nat) (step : (Nat → α) → Nat → α) :
    Array α :=
  order.foldl
    (fun values i => values.setIfInBounds i (step (fun j => values.getD j initial) i))
    (Array.replicate size initial)

end BindingPlan
