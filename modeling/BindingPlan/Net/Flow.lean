import BindingPlan.Net.Basic

/-!
# Invalid flags and conditional reads

The two sets of flags that a net holds for every node.

* A value is invalid under the flag that invalidates everything, under the flag of its node, and
  under the invalid flags of its targets. They are computed in dependency order.
* A value may be needed under the invalid flags of its node if that is the root of a binding, under
  the needs of the nodes that depend on it without a guard, and under the requirement of the branch
  behind each guard. They are computed against dependency order.
-/

namespace BindingPlan
namespace Net

/-- The invalid flags of a node, from those of its targets: the body of `compute_invalid_flags`. -/
def invalidFrom (net : Net) (invalid : Nat → FlagSet) (i : Nat) : FlagSet :=
  let node := net.node i
  let own := (FlagSet.single net.allFlag).union (node.flag.elim .empty .single)
  node.dependencies.foldl (fun set dependency => set.union (invalid dependency.target)) own

/-- The needs that one edge passes on to its target, from those of the node at its start. -/
def neededThrough (net : Net) (needed : Nat → FlagSet) (edge : Dependant) : FlagSet :=
  let owner := net.node edge.node
  match owner.dependencies[edge.edge]? with
  | none => .empty
  | some dependency =>
    match dependency.guard with
    | none => needed edge.node
    | some guard => owner.requirementSet guard.branch

/-- The needs of a node, from those of the nodes that depend on it: the body of
`compute_conditional_reads`. -/
def neededFrom (net : Net) (needed : Nat → FlagSet) (i : Nat) : FlagSet :=
  let node := net.node i
  let own := if node.isBinding then node.invalid else .empty
  node.dependants.foldl (fun set edge => set.union (net.neededThrough needed edge)) own

/-- The net with the invalid flags of its nodes, targets first (`compute_invalid_flags`). -/
def withInvalid (net : Net) : Net :=
  let sets := sweep net.size .empty net.order net.invalidFrom
  { net with nodes := net.nodes.mapIdx fun i node => { node with invalid := sets.getD i .empty } }

/-- The net with the needs of its nodes, targets last (`compute_conditional_reads`). -/
def withConditionalRead (net : Net) : Net :=
  let sets := sweep net.size .empty net.order.reverse net.neededFrom
  { net with
    nodes := net.nodes.mapIdx fun i node => { node with conditionalRead := sets.getD i .empty } }

/-- The net with its flag sets computed. -/
def withFlow (net : Net) : Net :=
  net.withInvalid.withConditionalRead

end Net
end BindingPlan
