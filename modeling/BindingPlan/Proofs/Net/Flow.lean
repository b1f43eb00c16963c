import Mathlib.Data.List.Nodup
import BindingPlan.Net.Flow
import BindingPlan.Proofs.Flag.Set
import BindingPlan.Proofs.Net.WellFormed

/-!
# The flag sets of a net

The two sweeps that compute the flag sets of a net change nothing else, and they solve their
equations: the invalid flags of a node are its own and those of its targets, and its conditional
reads come from its binding and from the nodes that depend on it.

Main results:

* `Net.node_withFlow`: the sweeps fill in the two sets of a node.
* `Net.mem_invalid_withFlow`, `Net.mem_conditionalRead_withFlow`: the equations.
-/

namespace BindingPlan
namespace Net

variable {net : Net}

/-- The invalid flags that the first sweep computes. -/
def invalidTable (net : Net) : Array FlagSet :=
  sweep net.size .empty net.order net.invalidFrom

/-- The conditional reads that the second sweep computes. -/
def neededTable (net : Net) : Array FlagSet :=
  sweep net.size .empty net.order.reverse net.neededFrom

theorem getD_mapIdx_nodes {change : Nat → NetNode → NetNode} (i : Nat)
    (hd : net.size ≤ i → change i default = default) :
    (net.nodes.mapIdx change).getD i default = change i (net.node i) := by
  by_cases hi : i < net.size
  · have : i < net.nodes.size := hi
    simp [node, this]
  · rw [node_of_size_le (by omega), hd (by omega)]
    have : net.nodes.size ≤ i := by simpa [size] using hi
    simp [this]

theorem node_withInvalid (i : Nat) :
    net.withInvalid.node i = { net.node i with invalid := net.invalidTable.getD i .empty } := by
  refine getD_mapIdx_nodes i fun hi => ?_
  have : (sweep net.size FlagSet.empty net.order net.invalidFrom).getD i .empty = .empty := by
    simp [hi]
  rw [this]
  rfl

theorem node_withConditionalRead (i : Nat) :
    net.withConditionalRead.node i =
      { net.node i with conditionalRead := net.neededTable.getD i .empty } := by
  refine getD_mapIdx_nodes i fun hi => ?_
  have : (sweep net.size FlagSet.empty net.order.reverse net.neededFrom).getD i .empty =
      .empty := by
    simp [hi]
  rw [this]
  rfl

@[simp] theorem size_withInvalid : net.withInvalid.size = net.size := by
  simp [withInvalid, size]

@[simp] theorem size_withFlow : net.withFlow.size = net.size := by
  simp [withFlow, withConditionalRead, withInvalid, size]

/-- The sweeps change only the two sets of a node. -/
theorem node_withFlow (i : Nat) :
    net.withFlow.node i =
      { net.node i with
        invalid := net.invalidTable.getD i .empty
        conditionalRead := net.withInvalid.neededTable.getD i .empty } := by
  rw [withFlow, node_withConditionalRead, node_withInvalid]

@[simp] theorem isDynamic_withFlow (i : Nat) :
    (net.withFlow.node i).isDynamic = (net.node i).isDynamic := by
  rw [node_withFlow]

@[simp] theorem dependencies_withFlow (i : Nat) :
    (net.withFlow.node i).dependencies = (net.node i).dependencies := by
  rw [node_withFlow]

@[simp] theorem dependants_withFlow (i : Nat) :
    (net.withFlow.node i).dependants = (net.node i).dependants := by
  rw [node_withFlow]

@[simp] theorem predicate_withFlow (i : Nat) :
    (net.withFlow.node i).predicate = (net.node i).predicate := by
  rw [node_withFlow]

@[simp] theorem isBinding_withFlow (i : Nat) :
    (net.withFlow.node i).isBinding = (net.node i).isBinding := by
  rw [node_withFlow]

@[simp] theorem flag_withFlow (i : Nat) : (net.withFlow.node i).flag = (net.node i).flag := by
  rw [node_withFlow]

@[simp] theorem requirementFlag?_withFlow (i : Nat) (b : Bool) :
    (net.withFlow.node i).requirementFlag? b = (net.node i).requirementFlag? b := by
  rw [node_withFlow]
  rfl

/-! ## Members -/

theorem mem_invalidFrom {invalid : Nat → FlagSet} {i flag : Nat} :
    flag ∈ net.invalidFrom invalid i ↔
      flag = net.allFlag ∨ (net.node i).flag = some flag ∨
        ∃ d ∈ (net.node i).dependencies, flag ∈ invalid d.target := by
  simp only [invalidFrom]
  rw [FlagSet.mem_foldl_union (fun d : Dependency => invalid d.target), FlagSet.mem_union,
    FlagSet.mem_single, or_assoc]
  cases h : (net.node i).flag with
  | none => simp
  | some own => simp [eq_comm]

theorem mem_requirementSet {node : NetNode} {branch : Bool} {flag : Nat} :
    flag ∈ node.requirementSet branch ↔ node.requirementFlag? branch = some flag := by
  unfold NetNode.requirementSet
  cases node.requirementFlag? branch with
  | none => simp
  | some own => simp [eq_comm]

theorem mem_neededFrom {needed : Nat → FlagSet} {i flag : Nat} :
    flag ∈ net.neededFrom needed i ↔
      ((net.node i).isBinding = true ∧ flag ∈ (net.node i).invalid) ∨
        ∃ edge ∈ (net.node i).dependants, flag ∈ net.neededThrough needed edge := by
  simp only [neededFrom]
  rw [FlagSet.mem_foldl_union (net.neededThrough needed)]
  cases h : (net.node i).isBinding <;> simp

/-- A flag is needed along an edge by the needs of its owner, or by the requirement of its guard. -/
theorem mem_neededThrough {needed : Nat → FlagSet} {edge : Dependant} {flag : Nat} :
    flag ∈ net.neededThrough needed edge ↔
      ∃ d, (net.node edge.node).dependencies[edge.edge]? = some d ∧
        ((d.guard = none ∧ flag ∈ needed edge.node) ∨
          ∃ g, d.guard = some g ∧ (net.node edge.node).requirementFlag? g.branch = some flag) := by
  simp only [neededThrough]
  cases h : (net.node edge.node).dependencies[edge.edge]? with
  | none => simp
  | some d =>
    cases hg : d.guard with
    | none => simp [hg]
    | some g => simp [hg, mem_requirementSet]

/-! ## The equations -/

section Equations

variable (hn : net.order.Nodup) (hm : ∀ i, i ∈ net.order ↔ i < net.size)
  (ht : Follows (fun i j => j ∈ net.targets i) net.order)
include hn hm ht

theorem mem_invalid_withInvalid {i : Nat} (hi : i < net.size) {flag : Nat} :
    flag ∈ (net.withInvalid.node i).invalid ↔
      flag = net.allFlag ∨ (net.node i).flag = some flag ∨
        ∃ d ∈ (net.node i).dependencies, flag ∈ (net.withInvalid.node d.target).invalid := by
  have hlocal : ∀ f g i, (∀ j, j ∈ net.targets i → f j = g j) →
      net.invalidFrom f i = net.invalidFrom g i := by
    intro f g i h
    apply FlagSet.ext_mem
    intro flag
    rw [mem_invalidFrom, mem_invalidFrom]
    refine or_congr_right (or_congr_right (exists_congr fun d => and_congr_right fun hd => ?_))
    rw [h d.target (List.mem_map_of_mem hd)]
  have htable := getD_sweep FlagSet.empty net.size ht hn (fun i hi => (hm i).mp hi) hlocal
    ((hm i).mpr hi)
  simp only [node_withInvalid]
  rw [invalidTable, htable]
  exact mem_invalidFrom

theorem mem_conditionalRead_withConditionalRead
    (hd : ∀ i edge, edge ∈ (net.node i).dependants ↔
      ∃ d, (net.node edge.node).dependencies[edge.edge]? = some d ∧ d.target = i)
    {i : Nat} (hi : i < net.size) {flag : Nat} :
    flag ∈ (net.withConditionalRead.node i).conditionalRead ↔
      ((net.node i).isBinding = true ∧ flag ∈ (net.node i).invalid) ∨
        ∃ m, ∃ d ∈ (net.node m).dependencies, d.target = i ∧
          ((d.guard = none ∧ flag ∈ (net.withConditionalRead.node m).conditionalRead) ∨
            ∃ g, d.guard = some g ∧ (net.node m).requirementFlag? g.branch = some flag) := by
  have hlocal : ∀ f g i, (∀ j, i ∈ net.targets j → f j = g j) →
      net.neededFrom f i = net.neededFrom g i := by
    intro f g i h
    apply FlagSet.ext_mem
    intro flag
    rw [mem_neededFrom, mem_neededFrom]
    refine or_congr_right (exists_congr fun edge => and_congr_right fun hedge => ?_)
    obtain ⟨d, hget, htarget⟩ := (hd i edge).mp hedge
    have hsame : f edge.node = g edge.node :=
      h edge.node (List.mem_map.mpr ⟨d, List.mem_of_getElem? hget, htarget⟩)
    rw [mem_neededThrough, mem_neededThrough, hsame]
  have htable := getD_sweep FlagSet.empty net.size (follows_reverse_targets hn hm ht)
    (List.nodup_reverse.mpr hn) (fun i hi => (hm i).mp (List.mem_reverse.mp hi)) hlocal
    (List.mem_reverse.mpr ((hm i).mpr hi))
  simp only [node_withConditionalRead]
  rw [neededTable, htable, mem_neededFrom]
  simp only [mem_neededThrough]
  exact or_congr_right (exists_dependant (hd i) (P := fun m d =>
    (d.guard = none ∧ flag ∈ net.neededTable.getD m .empty) ∨
      ∃ g, d.guard = some g ∧ (net.node m).requirementFlag? g.branch = some flag))

theorem mem_invalid_withFlow {i : Nat} (hi : i < net.size) {flag : Nat} :
    flag ∈ (net.withFlow.node i).invalid ↔
      flag = net.allFlag ∨ (net.node i).flag = some flag ∨
        ∃ d ∈ (net.node i).dependencies, flag ∈ (net.withFlow.node d.target).invalid := by
  have h := @mem_invalid_withInvalid net hn hm ht i hi flag
  simpa only [node_withFlow, node_withInvalid] using h

/-- The needs of a node, through the edges that its targets know of. -/
theorem mem_conditionalRead_withFlow
    (hd : ∀ i edge, edge ∈ (net.node i).dependants ↔
      ∃ d, (net.node edge.node).dependencies[edge.edge]? = some d ∧ d.target = i)
    {i : Nat} (hi : i < net.size) {flag : Nat} :
    flag ∈ (net.withFlow.node i).conditionalRead ↔
      ((net.node i).isBinding = true ∧ flag ∈ (net.withFlow.node i).invalid) ∨
        ∃ m, ∃ d ∈ (net.node m).dependencies, d.target = i ∧
          ((d.guard = none ∧ flag ∈ (net.withFlow.node m).conditionalRead) ∨
            ∃ g, d.guard = some g ∧ (net.node m).requirementFlag? g.branch = some flag) := by
  have htargets : net.withInvalid.targets = net.targets := by
    funext j
    simp only [targets, node_withInvalid]
  have hinvalid : (net.withFlow.node i).invalid = (net.withInvalid.node i).invalid := by
    rw [node_withFlow, node_withInvalid]
  have h := @mem_conditionalRead_withConditionalRead net.withInvalid hn
    (fun j => by rw [size_withInvalid]; exact hm j) (by rw [htargets]; exact ht)
    (by simpa only [node_withInvalid] using hd) i (by simpa using hi) flag
  rw [hinvalid]
  simp only [node_withInvalid] at h ⊢
  exact h

end Equations

end Net
end BindingPlan
