import BindingPlan.Proofs.Graph.FlagTable
import BindingPlan.Proofs.Net.Reach

/-!
# The flag sets of a sealed graph

Sealing computes for every node under which flags its value is invalid, and under which flags any
consumer may need it. Both sets are exact, whatever the graph: they hold what the paths through the
edges of the net call for, and nothing else.

Main results:

* `Graph.invalid_exact`: the invalid flags of the nodes of a graph that was just sealed.
* `Graph.conditionalRead_exact`: the flags that its nodes may be needed for.
-/

namespace BindingPlan
namespace Graph

variable {graph : Graph} {id flag : Nat}

/-- The net of a graph that was just sealed is the bare one with its flag sets. -/
theorem FreshlySealed.exists_bareNet (h : graph.FreshlySealed) :
    ∃ order, (graph.bareNet order).withFlow.WellFormed ∧
      graph.sealed? =
        some ⟨(graph.bareNet order).withFlow, .start (graph.bareNet order).withFlow⟩ := by
  obtain ⟨net, hnet, hsealed⟩ := h.exists_net?
  have hw := wellFormed_of_net? hnet
  obtain ⟨order, -, rfl⟩ := net?_eq_ok hnet
  exact ⟨order, hw, hsealed⟩

/-- The flag of a node is the one that the table has for its invalidation. -/
theorem flag_bareNet_eq_some_iff (order : List Nat) (hid : id < graph.size) :
    ((graph.bareNet order).node id).flag = some flag ↔
      graph.flagTable.purpose? flag = some (.invalidation id) := by
  rw [node_bareNet hid, purpose?_invalidation_iff]
  exact idxOf?_eq_some_iff_of_nodup nodup_invalidated

/-! ## Invalid flags -/

/-- A value is invalid under the flag for everything and under the flags of the nodes that it is
computed from, its own among them, and under no other flags. -/
structure InvalidExact (graph : Graph) (net : Net) : Prop where
  mem_invalid_iff : ∀ id < graph.size, ∀ flag, flag ∈ (net.node id).invalid ↔
    flag = net.allFlag ∨ ∃ other, net.Reach id other ∧ (net.node other).flag = some flag
  /-- The flag for everything is the one in the table. -/
  allFlag_iff : ∀ flag, flag = net.allFlag ↔ net.flags.purpose? flag = some .invalidateAll
  /-- The flag of a node is the one in the table. -/
  flag_iff : ∀ id < graph.size, ∀ flag, (net.node id).flag = some flag ↔
    net.flags.purpose? flag = some (.invalidation id)
  /-- A value is invalid whenever one that it is computed from is. -/
  invalid_of_target : ∀ id, ∀ d ∈ (net.node id).dependencies,
    ∀ flag ∈ (net.node d.target).invalid, flag ∈ (net.node id).invalid

/-- The invalid flags of the nodes of a graph that was just sealed are exact. -/
theorem invalid_exact (h : graph.FreshlySealed) :
    ∃ net, graph.sealed? = some ⟨net, .start net⟩ ∧ graph.InvalidExact net := by
  obtain ⟨order, hw, hsealed⟩ := h.exists_bareNet
  refine ⟨_, hsealed, ?_⟩
  exact
    { mem_invalid_iff := fun id hid flag => hw.mem_invalid_iff_reach (by simpa using hid)
      allFlag_iff := fun flag => purpose?_invalidateAll_iff.symm
      flag_iff := fun id hid flag => by
        rw [Net.flag_withFlow]
        exact flag_bareNet_eq_some_iff order hid
      invalid_of_target := fun id d hd flag hf => hw.invalid_of_target hd hf }

theorem invalid_exact_overlap :
    (Layout.overlap.sealedGraph .builtin).FreshlySealed ∧
      ∃ net, (Layout.overlap.sealedGraph .builtin).sealed? = some ⟨net, .start net⟩ ∧
        (Layout.overlap.sealedGraph .builtin).InvalidExact net :=
  ⟨Layout.freshlySealed_overlap, invalid_exact Layout.freshlySealed_overlap⟩

/-! ## Needs -/

/-- The nodes of a graph that was just sealed may be needed for the flags that are a reason to read
a node which they feed, and for no others. -/
theorem conditionalRead_exact (h : graph.FreshlySealed) :
    ∃ net, graph.sealed? = some ⟨net, .start net⟩ ∧
      ∀ id < graph.size, ∀ flag, flag ∈ (net.node id).conditionalRead ↔
        ∃ m, net.Feeds id m ∧ net.ReadFor m flag := by
  obtain ⟨order, hw, hsealed⟩ := h.exists_bareNet
  exact ⟨_, hsealed, fun id hid flag => hw.mem_conditionalRead_iff_feeds (by simpa using hid)⟩

end Graph

/-- A variable that is both the predicate of a conditional and one of its branches. -/
def Layout.ownBranch : Layout where
  classes := []
  imports := []
  variableDecls := [⟨"a", "boolean"⟩, ⟨"b", "boolean"⟩]
  bindings := ["a ? a : b"]

theorem Layout.freshlySealed_ownBranch : (ownBranch.sealedGraph .builtin).FreshlySealed :=
  freshlySealed_sealedGraph (by decide +kernel)

theorem Graph.conditionalRead_exact_ownBranch :
    (Layout.ownBranch.sealedGraph .builtin).FreshlySealed ∧
      ∃ net, (Layout.ownBranch.sealedGraph .builtin).sealed? = some ⟨net, .start net⟩ ∧
        ∀ id < (Layout.ownBranch.sealedGraph .builtin).size, ∀ flag,
          flag ∈ (net.node id).conditionalRead ↔ ∃ m, net.Feeds id m ∧ net.ReadFor m flag :=
  ⟨Layout.freshlySealed_ownBranch, conditionalRead_exact Layout.freshlySealed_ownBranch⟩

/-- The variable `a` is needed for the invalid flags of the binding and for its own branch, and `b`
for the other branch alone. -/
example : (List.range 2).map
    (fun id => ((Layout.ownBranch.sealedGraph .builtin).netNodeOf id).conditionalRead.toList) =
      [[0, 1, 2, 4], [3]] := by
  decide +kernel

end BindingPlan
