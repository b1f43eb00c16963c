/-!
# Dependency order

An order of all nodes in which every target stands before the nodes that need it. The nodes are
swept in ascending order; a node whose targets are not all placed yet waits for the next sweep. A
sweep that places nothing shows a cycle.

Main definitions:

* `dependencyOrder`: the order, or the first node that waits for ever.
-/

namespace BindingPlan

/-- The nodes that were placed, latest first, and those that wait, latest first. -/
structure Placement where
  placed : List Nat
  waiting : List Nat
deriving DecidableEq, Repr

/-- Places a node if all its targets are placed; lets it wait if not. -/
def Placement.add (targets : Nat → List Nat) (placement : Placement) (i : Nat) : Placement :=
  if (targets i).all placement.placed.contains then
    { placement with placed := i :: placement.placed }
  else { placement with waiting := i :: placement.waiting }

/-- One sweep over the waiting nodes: the inner loop of `dependency_order`. -/
def placeReady (targets : Nat → List Nat) (placed waiting : List Nat) : Placement :=
  waiting.foldl (Placement.add targets) ⟨placed, []⟩

/-- Sweeps until nothing waits; fails with the first waiting node when a sweep places nothing: the
outer loop of `dependency_order`. Every other sweep places a node, so the bound is not reached if it
is the number of waiting nodes. -/
def orderFrom (targets : Nat → List Nat) : Nat → List Nat → List Nat → Except Nat (List Nat)
  | _, placed, [] => .ok placed.reverse
  | 0, _, i :: _ => .error i
  | bound + 1, placed, i :: waiting =>
    let next := placeReady targets placed (i :: waiting)
    let still := next.waiting.reverse
    if still.length = (i :: waiting).length then .error i
    else orderFrom targets bound next.placed still

/-- An order of the nodes below `size` in which targets come first (`dependency_order`). -/
def dependencyOrder (targets : Nat → List Nat) (size : Nat) : Except Nat (List Nat) :=
  orderFrom targets size [] (List.range size)

end BindingPlan
