import BindingPlan.Graph.Seal
import BindingPlan.Proofs.Graph.Flags
import BindingPlan.Proofs.Graph.Run
import BindingPlan.Proofs.Net.Flow
import BindingPlan.Proofs.Net.Order

/-!
# Sealed graphs

The read net that sealing derives from a graph is well formed, whatever the graph.

Main results:

* `Graph.wellFormed_of_net?`: the net of a classified graph is well formed.
* `Graph.FreshlySealed.exists_net`: a graph that was just sealed carries a well-formed net, of which
  nothing was read.
-/

namespace BindingPlan
namespace Graph

variable {graph : Graph}

/-- The read net before its flag sets are computed, with its flags read off the graph. -/
def bareNet (graph : Graph) (order : List Nat) : Net :=
  ⟨(graph.netNodes graph.assignFlags).toArray, order, graph.flagTable, graph.allFlag, graph.limit⟩

/-- The record that a node has in the net before its flag sets are computed, with its flags read off
the graph. -/
def bareNode (graph : Graph) (i : Nat) : NetNode where
  isDynamic := graph.isDynamic i
  isBinding := (graph.node i).isBinding
  flag := graph.invalidated.idxOf? i
  requirementBase := (graph.conditionals.idxOf? i).map (graph.limit + 2 * ·)
  predicate := (graph.node i).predicate?
  dependencies := graph.dependencies i
  dependants := dependantsOf graph.dependencies graph.size i
  invalid := .empty
  conditionalRead := .empty

theorem netNode_assignFlags (i : Nat) :
    graph.netNode graph.assignFlags graph.dependencies i = graph.bareNode i := by
  unfold netNode bareNode
  rw [flag?_assignFlags, base?_assignFlags]

@[simp] theorem size_bareNet (order : List Nat) : (graph.bareNet order).size = graph.size := by
  simp [bareNet, Net.size, netNodes, ids]

theorem edges_eq : (fun i => (graph.ids.map graph.dependencies).toArray.getD i []) =
    graph.dependencies := by
  funext i
  by_cases hi : i < graph.size
  · simp [ids, hi]
  · simp [ids, hi, dependencies_of_size_le (Nat.le_of_not_lt hi)]

theorem node_bareNet {order : List Nat} {i : Nat} (hi : i < graph.size) :
    (graph.bareNet order).node i = graph.bareNode i := by
  simp only [bareNet, Net.node, netNodes]
  rw [edges_eq]
  simp [ids, hi, netNode_assignFlags]

theorem node_bareNet_of_size_le {order : List Nat} {i : Nat} (hi : graph.size ≤ i) :
    (graph.bareNet order).node i = default :=
  Net.node_of_size_le (by simpa using hi)

/-- A part of the record is what the graph says of the node, if nodes that are not there have
none. -/
theorem part_bareNet {α : Type} {value : α} (part : NetNode → α) (order : List Nat) {i : Nat}
    (hnode : part (graph.bareNode i) = value)
    (hdefault : graph.size ≤ i → part default = value) :
    part ((graph.bareNet order).node i) = value := by
  by_cases hi : i < graph.size
  · rw [node_bareNet hi, hnode]
  · rw [node_bareNet_of_size_le (Nat.le_of_not_lt hi), hdefault (Nat.le_of_not_lt hi)]

theorem isDynamic_bareNet (order : List Nat) (i : Nat) :
    ((graph.bareNet order).node i).isDynamic = graph.isDynamic i :=
  part_bareNet NetNode.isDynamic order rfl fun hi => by
    rw [isDynamic, node_of_size_le hi]
    rfl

theorem dependencies_bareNet (order : List Nat) (i : Nat) :
    ((graph.bareNet order).node i).dependencies = graph.dependencies i :=
  part_bareNet NetNode.dependencies order rfl fun hi => (dependencies_of_size_le hi).symm

theorem predicate_bareNet (order : List Nat) (i : Nat) :
    ((graph.bareNet order).node i).predicate = (graph.node i).predicate? :=
  part_bareNet NetNode.predicate order rfl fun hi => by
    rw [node_of_size_le hi]
    rfl

theorem mem_dependants_bareNet (order : List Nat) (i : Nat) (edge : Dependant) :
    edge ∈ ((graph.bareNet order).node i).dependants ↔
      ∃ d, (graph.dependencies edge.node)[edge.edge]? = some d ∧ d.target = i := by
  have hlt : ∀ d, (graph.dependencies edge.node)[edge.edge]? = some d →
      edge.node < graph.size ∧ d.target < graph.size := by
    intro d hd
    have hmem := List.mem_of_getElem? hd
    exact ⟨lt_size_of_isDynamic (isDynamic_of_dependency hmem),
      lt_size_of_isDynamic (target_of_dependency hmem).1⟩
  by_cases hi : i < graph.size
  · rw [node_bareNet hi]
    show edge ∈ dependantsOf graph.dependencies graph.size i ↔ _
    rw [mem_dependantsOf]
    refine and_iff_right_of_imp ?_
    rintro ⟨d, hd, -⟩
    exact (hlt d hd).1
  · rw [node_bareNet_of_size_le (by omega)]
    refine iff_of_false (by simp [show (default : NetNode).dependants = [] from rfl]) ?_
    rintro ⟨d, hd, rfl⟩
    exact hi (hlt d hd).2

theorem requirementFlag?_bareNet (order : List Nat) (i : Nat) (b : Bool) (flag : Nat) :
    ((graph.bareNet order).node i).requirementFlag? b = some flag ↔
      ∃ position, graph.conditionals.idxOf? i = some position ∧
        graph.limit + 2 * position + b.toNat = flag := by
  by_cases hi : i < graph.size
  · rw [node_bareNet hi]
    simp [NetNode.requirementFlag?, bareNode, requirementFlag]
  · rw [node_bareNet_of_size_le (by omega)]
    have hnone : graph.conditionals.idxOf? i = none := by
      rw [List.idxOf?_eq_none_iff, mem_conditionals]
      exact fun h => hi h.1
    simp [hnone, NetNode.requirementFlag?, show (default : NetNode).requirementBase = none from rfl]

theorem flag_lt_bareNet {order : List Nat} {i flag : Nat}
    (h : ((graph.bareNet order).node i).flag = some flag) : flag < graph.limit := by
  by_cases hi : i < graph.size
  · rw [node_bareNet hi] at h
    obtain ⟨hlt, -⟩ := List.idxOf?_eq_some_iff.mp h
    simp only [limit, allFlag]
    omega
  · rw [node_bareNet_of_size_le (by omega)] at h
    exact absurd h (by simp [show (default : NetNode).flag = none from rfl])

/-! ## The sealed net -/

/-- The order does not matter for the targets that it is computed from. -/
theorem net?_eq : graph.net? =
    (dependencyOrder (graph.bareNet []).targets graph.size).map
      fun order => (graph.bareNet order).withFlow := by
  unfold net? bareNet
  dsimp only
  rw [table_assignFlags, all_assignFlags, limit_assignFlags]
  rfl

theorem net?_eq_ok {net : Net} (h : graph.net? = .ok net) :
    ∃ order, dependencyOrder (graph.bareNet order).targets graph.size = .ok order ∧
      net = (graph.bareNet order).withFlow := by
  rw [net?_eq] at h
  cases hd : dependencyOrder (graph.bareNet []).targets graph.size with
  | error e =>
    rw [hd] at h
    cases h
  | ok order =>
    rw [hd] at h
    exact ⟨order, hd, (Except.ok.inj h).symm⟩

theorem wellFormed_of_net? {net : Net} (h : graph.net? = .ok net) : net.WellFormed := by
  obtain ⟨order, horder, rfl⟩ := net?_eq_ok h
  have hperm := perm_of_dependencyOrder horder
  have hn : order.Nodup := hperm.nodup_iff.mpr List.nodup_range
  have hm : ∀ i, i ∈ order ↔ i < (graph.bareNet order).size := by
    intro i
    rw [hperm.mem_iff, List.mem_range, size_bareNet]
  have ht : Follows (fun i j => j ∈ (graph.bareNet order).targets i) order :=
    follows_of_dependencyOrder horder
  have hd : ∀ i edge, edge ∈ ((graph.bareNet order).node i).dependants ↔
      ∃ d, ((graph.bareNet order).node edge.node).dependencies[edge.edge]? = some d ∧
        d.target = i := by
    intro i edge
    rw [mem_dependants_bareNet, dependencies_bareNet]
  exact
    { nodup_order := hn
      mem_order := fun i => by
        rw [Net.size_withFlow]
        exact hm i
      targets_first := by
        have htargets : (graph.bareNet order).withFlow.targets = (graph.bareNet order).targets := by
          funext i
          rw [Net.targets, Net.dependencies_withFlow, Net.targets]
        rw [htargets]
        exact ht
      mem_dependants := fun i edge => by
        simp only [Net.dependants_withFlow, Net.dependencies_withFlow]
        exact hd i edge
      dynamic_of_dependency := fun i d hmem => by
        rw [Net.dependencies_withFlow, dependencies_bareNet] at hmem
        rw [Net.isDynamic_withFlow, isDynamic_bareNet]
        exact isDynamic_of_dependency hmem
      dynamic_target := fun i d hmem => by
        rw [Net.dependencies_withFlow, dependencies_bareNet] at hmem
        rw [Net.isDynamic_withFlow, isDynamic_bareNet]
        exact (target_of_dependency hmem).1
      guard_predicate := fun i d hmem g hg => by
        rw [Net.dependencies_withFlow, dependencies_bareNet] at hmem
        obtain ⟨hpred, hdyn⟩ := (target_of_dependency hmem).2 g hg
        rw [Net.predicate_withFlow, predicate_bareNet, Net.dependencies_withFlow,
          dependencies_bareNet]
        exact ⟨hpred, _, dependency_on_predicate (isDynamic_of_dependency hmem) hpred hdyn, rfl,
          rfl⟩
      guard_requirement := fun i d hmem g hg => by
        rw [Net.dependencies_withFlow, dependencies_bareNet] at hmem
        have hcond := mem_conditionals_of_predicate? ((target_of_dependency hmem).2 g hg).1
        obtain ⟨position, hposition⟩ := Option.isSome_iff_exists.mp (List.isSome_idxOf?.mpr hcond)
        rw [Net.requirementFlag?_withFlow]
        exact ⟨_, (requirementFlag?_bareNet order i g.branch _).mpr ⟨position, hposition, rfl⟩⟩
      requirement_iff := fun flag c b => by
        rw [Net.requirementFlag?_withFlow, requirementFlag?_bareNet]
        exact requirement?_flagTable
      limit_le_of_requirement := fun flag c b h => by
        obtain ⟨position, -, rfl⟩ := requirement?_flagTable.mp h
        show graph.limit ≤ _
        omega
      allFlag_lt := Nat.lt_succ_self _
      limit_le_size := limit_le_size_flagTable
      flag_lt := fun i flag h => by
        rw [Net.flag_withFlow] at h
        exact flag_lt_bareNet h
      mem_invalid := fun i hi flag => by
        rw [Net.size_withFlow] at hi
        rw [Net.flag_withFlow, Net.dependencies_withFlow]
        exact Net.mem_invalid_withFlow hn hm ht hi
      mem_conditionalRead := fun i hi flag => by
        rw [Net.size_withFlow] at hi
        simp only [Net.isBinding_withFlow, Net.dependencies_withFlow, Net.requirementFlag?_withFlow]
        exact Net.mem_conditionalRead_withFlow hn hm ht hd hi }

/-! ## Freshly sealed graphs -/

/-- Sealing has just succeeded, and nothing was read since. -/
def FreshlySealed (graph : Graph) : Prop :=
  ∃ classes before, (GraphM.sealGraph classes).run.run before = (.ok (), graph)

/-- A graph that was just sealed carries the net of its nodes, and none of them is read. -/
theorem FreshlySealed.exists_net? (h : graph.FreshlySealed) :
    ∃ net : Net, graph.net? = .ok net ∧ graph.sealed? = some ⟨net, .start net⟩ := by
  obtain ⟨classes, before, hrun⟩ := h
  unfold GraphM.sealGraph at hrun
  rw [GraphM.run_bind, GraphM.run_get] at hrun
  dsimp only at hrun
  split_ifs at hrun
  · cases hrun
  rw [GraphM.run_bind] at hrun
  split at hrun
  · rename_i classified _
    rw [GraphM.run_bind, GraphM.run_get] at hrun
    dsimp only at hrun
    split at hrun
    · cases hrun
    · rename_i net hnet
      rw [GraphM.run_set] at hrun
      obtain ⟨-, rfl⟩ := Prod.mk.inj hrun
      exact ⟨net, hnet, rfl⟩
  · cases hrun

theorem FreshlySealed.exists_net (h : graph.FreshlySealed) :
    ∃ net : Net, net.WellFormed ∧ graph.sealed? = some ⟨net, .start net⟩ := by
  obtain ⟨net, hnet, hsealed⟩ := h.exists_net?
  exact ⟨net, wellFormed_of_net? hnet, hsealed⟩

/-- Planning reads the net to exhaustion and keeps everything else. -/
theorem run_plan {state : Sealed} (h : graph.sealed? = some state) :
    (GraphM.plan).run.run graph =
      ((state.progress.run state.net).2.mapError graph.scheduleError,
        { graph with sealed? := some ⟨state.net, (state.progress.run state.net).1⟩ }) := by
  unfold GraphM.plan GraphM.requireSealed GraphM.setProgress
  simp only [GraphM.run_bind, GraphM.run_get, GraphM.run_pure, GraphM.run_modify, h,
    Option.map_some]
  cases (state.progress.run state.net).2 with
  | error e => rfl
  | ok schedule => rfl

end Graph
end BindingPlan
