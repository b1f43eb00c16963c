import BindingPlan.Graph.Basic

/-!
# Edges of a classified graph

What sealing derives from the children of the nodes once all of them are classified. A dynamic node
depends on its dynamic children. The operands of a conditional after the first are guarded by the
first one if that is dynamic. Receivers and predicates are mandatory.

Main definitions:

* `Node.dependencies`: the edges of a node.
* `dependantsOf`: the edges that lead to a node.
-/

namespace BindingPlan

/-- The value of the first operand under which the operand at a position is evaluated, for the
guards of `build_dependencies`. -/
def Kind.branchAt? (kind : Kind) (position : Nat) : Option Bool :=
  match kind, position with
  | .ternary, 1 => some true
  | .ternary, 2 => some false
  | .binary (.logical op), 1 => some op.continuesOn
  | _, _ => none

/-- Kinds whose first child is a receiver. -/
def Kind.hasReceiver : Kind → Bool
  | .field _ _ | .call _ => true
  | _ => false

/-- The edge to the child at a position, of a node that is no guarded conditional
(`unconditional`). -/
def Kind.plainDependency (kind : Kind) (position child : Nat) : Dependency :=
  ⟨child, kind.hasReceiver && position == 0, none⟩

/-- The edge of a conditional to the child at a position, when its predicate is dynamic
(`guarded`). -/
def Kind.guardedDependency? (kind : Kind) (predicate position child : Nat) : Option Dependency :=
  if position = 0 then some ⟨child, true, none⟩
  else (kind.branchAt? position).map fun branch => ⟨child, false, some ⟨predicate, branch⟩⟩

/-- The edges of a node, given which nodes are dynamic: the first loop of `build_dependencies`. -/
def Node.dependencies (node : Node) (dynamic : Nat → Bool) : List Dependency :=
  if !node.isDynamic then []
  else
    let children := node.children.zipIdx.filter fun (child, _) => dynamic child
    match node.predicate? with
    | some predicate =>
      if dynamic predicate then
        children.filterMap fun (child, position) =>
          node.kind.guardedDependency? predicate position child
      else children.map fun (child, position) => node.kind.plainDependency position child
    | none => children.map fun (child, position) => node.kind.plainDependency position child

namespace Graph

def isDynamic (graph : Graph) (id : Nat) : Bool :=
  (graph.node id).isDynamic

/-- The edges of a node (`dependencies`). -/
def dependencies (graph : Graph) (id : Nat) : List Dependency :=
  (graph.node id).dependencies graph.isDynamic

end Graph

/-- The edges that lead to a node, by the node that they come from and their position there; given
the edges of all nodes. The second loop of `build_dependencies` enters them. -/
def dependantsOf (dependencies : Nat → List Dependency) (size id : Nat) : List Dependant :=
  (List.range size).flatMap fun owner =>
    (dependencies owner).zipIdx.filterMap fun (dependency, edge) =>
      if dependency.target = id then some ⟨owner, edge⟩ else none

end BindingPlan
