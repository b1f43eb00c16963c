import BindingPlan.Net.Basic

/-!
# Read progress

How far the reads of a net have come: for every node the flags that it must be read for now, those
that it was read for, whether it is read for good, and, for a conditional, whether its guards were
released because the value of its predicate is known.

Main definitions:

* `Progress.refresh`: recomputes what must be read, from the bindings down to their targets.
-/

namespace BindingPlan

/-- The read state of one node: the parts of `Expr` that a pass changes. -/
structure ReadMark where
  shouldRead : FlagSet
  readSoFar : FlagSet
  /-- No consumer can need the node again. -/
  isRead : Bool
  /-- The guards of the node's dependencies no longer hold reads back. -/
  released : Bool
deriving DecidableEq, Repr

instance : Inhabited ReadMark := ⟨⟨.empty, .empty, false, false⟩⟩

/-- The read state of all nodes. -/
structure Progress where
  marks : Array ReadMark
deriving DecidableEq, Repr

namespace Progress

def mark (progress : Progress) (i : Nat) : ReadMark :=
  progress.marks.getD i default

/-- Changes the state of every node. -/
def map (progress : Progress) (change : Nat → ReadMark → ReadMark) : Progress :=
  ⟨progress.marks.mapIdx change⟩

/-- Nothing was read yet, and nothing is asked for. -/
def blank (net : Net) : Progress :=
  ⟨Array.replicate net.size default⟩

/-- The flags that one edge asks its target for, from those that the node at its start is asked for.
A guarded edge asks for its branch once it is released, until the conditional is read. -/
def askedThrough (net : Net) (progress : Progress) (asked : Nat → FlagSet) (edge : Dependant) :
    FlagSet :=
  let owner := net.node edge.node
  match owner.dependencies[edge.edge]? with
  | none => .empty
  | some dependency =>
    match dependency.guard with
    | none => asked edge.node
    | some guard =>
      let mark := progress.mark edge.node
      if mark.released && !mark.isRead then owner.requirementSet guard.branch else .empty

/-- The flags that a node must be read for, from those that the nodes above it are asked for: the
body of `refresh_read_flags`. -/
def askedFrom (net : Net) (progress : Progress) (asked : Nat → FlagSet) (i : Nat) : FlagSet :=
  let node := net.node i
  let mark := progress.mark i
  if node.isDynamic && !mark.isRead then
    let own := if node.isBinding then node.invalid else .empty
    let all := node.dependants.foldl
      (fun set edge => set.union (askedThrough net progress asked edge)) own
    (all.inter node.conditionalRead).diff mark.readSoFar
  else .empty

/-- Recomputes what must be read (`refresh_read_flags`). -/
def refresh (net : Net) (progress : Progress) : Progress :=
  let sets := sweep net.size .empty net.order.reverse (askedFrom net progress)
  progress.map fun i mark => { mark with shouldRead := sets.getD i .empty }

/-- The state of a net that was just sealed. -/
def start (net : Net) : Progress :=
  (blank net).refresh net

end Progress
end BindingPlan
