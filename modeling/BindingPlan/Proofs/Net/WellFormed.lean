import BindingPlan.Net.Basic
import BindingPlan.Proofs.Flag.Set
import BindingPlan.Proofs.Net.Sweep

/-!
# Well-formed nets

What sealing promises of a net, and what all proofs about reading it start from: the order puts
targets first, edges are known at both ends and join dynamic nodes, a guard is decided by an
unguarded target of the same node, requirement flags and branches of conditionals determine each
other, and the two flag sets of a node satisfy their equations.

Main results:

* `Net.WellFormed.induction_targets`, `Net.WellFormed.induction_dependants`: induction along the
  edges, from the targets up and from the dependants down.
* `Net.WellFormed.lt_limit_of_mem_invalid`: invalid flags are set from outside.
-/

namespace BindingPlan
namespace Net

theorem node_of_size_le {net : Net} {i : Nat} (h : net.size ≤ i) : net.node i = default := by
  simp only [size] at h
  simp [node, h]

/-- The nodes that a node depends on. -/
def targets (net : Net) (i : Nat) : List Nat :=
  (net.node i).dependencies.map Dependency.target

/-- Read backwards, an order with targets first puts first the nodes that need something. -/
theorem follows_reverse_targets {net : Net} (hn : net.order.Nodup)
    (hm : ∀ i, i ∈ net.order ↔ i < net.size)
    (ht : Follows (fun i j => j ∈ net.targets i) net.order) :
    Follows (fun i j => i ∈ net.targets j) net.order.reverse := by
  refine ht.reverse hn fun i j hij => (hm j).mpr ?_
  -- a node outside the net has no targets
  by_contra hj
  rw [targets, node_of_size_le (by omega)] at hij
  simp [show (default : NetNode).dependencies = [] from rfl] at hij

/-- What is said of the edges that a node knows of, said of the nodes that depend on it. -/
theorem exists_dependant {net : Net} {i : Nat}
    (hd : ∀ edge, edge ∈ (net.node i).dependants ↔
      ∃ d, (net.node edge.node).dependencies[edge.edge]? = some d ∧ d.target = i)
    {P : Nat → Dependency → Prop} :
    (∃ edge ∈ (net.node i).dependants,
        ∃ d, (net.node edge.node).dependencies[edge.edge]? = some d ∧ P edge.node d) ↔
      ∃ m, ∃ d ∈ (net.node m).dependencies, d.target = i ∧ P m d := by
  constructor
  · rintro ⟨edge, hedge, d, hget, h⟩
    obtain ⟨d', hget', htarget⟩ := (hd edge).mp hedge
    obtain rfl : d = d' := Option.some.inj (hget.symm.trans hget')
    exact ⟨edge.node, d, List.mem_of_getElem? hget, htarget, h⟩
  · rintro ⟨m, d, hmem, htarget, h⟩
    obtain ⟨edge, hget⟩ := List.getElem?_of_mem hmem
    exact ⟨⟨m, edge⟩, (hd ⟨m, edge⟩).mpr ⟨d, hget, htarget⟩, d, hget, h⟩

structure WellFormed (net : Net) : Prop where
  nodup_order : net.order.Nodup
  mem_order : ∀ i, i ∈ net.order ↔ i < net.size
  targets_first : Follows (fun i j => j ∈ net.targets i) net.order
  mem_dependants : ∀ i edge, edge ∈ (net.node i).dependants ↔
    ∃ d, (net.node edge.node).dependencies[edge.edge]? = some d ∧ d.target = i
  /-- Only dynamic nodes depend on others. -/
  dynamic_of_dependency : ∀ i, ∀ d ∈ (net.node i).dependencies, (net.node i).isDynamic = true
  /-- Only dynamic nodes are depended on. -/
  dynamic_target : ∀ i, ∀ d ∈ (net.node i).dependencies, (net.node d.target).isDynamic = true
  /-- A guard is decided by the predicate, on which the node depends without a guard. -/
  guard_predicate : ∀ i, ∀ d ∈ (net.node i).dependencies, ∀ g, d.guard = some g →
    (net.node i).predicate = some g.predicate ∧
      ∃ p ∈ (net.node i).dependencies, p.target = g.predicate ∧ p.guard = none
  /-- A guard has a requirement flag. -/
  guard_requirement : ∀ i, ∀ d ∈ (net.node i).dependencies, ∀ g, d.guard = some g →
    ∃ flag, (net.node i).requirementFlag? g.branch = some flag
  requirement_iff : ∀ flag c b, net.flags.requirement? flag = some (c, b) ↔
    (net.node c).requirementFlag? b = some flag
  limit_le_of_requirement : ∀ flag c b, net.flags.requirement? flag = some (c, b) →
    net.limit ≤ flag
  allFlag_lt : net.allFlag < net.limit
  /-- The flags below the limit are all allocated. -/
  limit_le_size : net.limit ≤ net.flags.size
  flag_lt : ∀ i flag, (net.node i).flag = some flag → flag < net.limit
  mem_invalid : ∀ i, i < net.size → ∀ flag, flag ∈ (net.node i).invalid ↔
    flag = net.allFlag ∨ (net.node i).flag = some flag ∨
      ∃ d ∈ (net.node i).dependencies, flag ∈ (net.node d.target).invalid
  mem_conditionalRead : ∀ i, i < net.size → ∀ flag, flag ∈ (net.node i).conditionalRead ↔
    ((net.node i).isBinding = true ∧ flag ∈ (net.node i).invalid) ∨
      ∃ m, ∃ d ∈ (net.node m).dependencies, d.target = i ∧
        ((d.guard = none ∧ flag ∈ (net.node m).conditionalRead) ∨
          ∃ g, d.guard = some g ∧ (net.node m).requirementFlag? g.branch = some flag)

theorem lt_size_of_dynamic {net : Net} {i : Nat} (h : (net.node i).isDynamic = true) :
    i < net.size := by
  by_contra hi
  rw [node_of_size_le (by omega)] at h
  exact absurd h (by decide)

namespace WellFormed

variable {net : Net} (hw : net.WellFormed) {i : Nat} {d : Dependency}
include hw

theorem lt_size_of_dependency (hd : d ∈ (net.node i).dependencies) : i < net.size :=
  lt_size_of_dynamic (hw.dynamic_of_dependency i d hd)

theorem target_lt_size (hd : d ∈ (net.node i).dependencies) : d.target < net.size :=
  lt_size_of_dynamic (hw.dynamic_target i d hd)

/-! ## Induction along the edges -/

theorem idxOf_target_lt (hd : d ∈ (net.node i).dependencies) :
    net.order.idxOf d.target < net.order.idxOf i := by
  apply hw.targets_first.idxOf_lt ((hw.mem_order i).mpr (hw.lt_size_of_dependency hd))
  exact List.mem_map_of_mem hd

/-- What holds of a node whenever it holds of its targets holds of all nodes. -/
theorem induction_targets {P : Nat → Prop}
    (step : ∀ i, (∀ d ∈ (net.node i).dependencies, P d.target) → P i) (i : Nat) : P i := by
  induction h : net.order.idxOf i using Nat.strongRecOn generalizing i with
  | ind n ih =>
    apply step
    intro d hd
    exact ih _ (h ▸ hw.idxOf_target_lt hd) d.target rfl

/-- Among the nodes with a property there is one none of whose targets has it. -/
theorem exists_lowest {P : Nat → Prop} (h : P i) :
    ∃ m, P m ∧ ∀ d ∈ (net.node m).dependencies, ¬P d.target := by
  induction i using hw.induction_targets with
  | step i ih =>
    by_cases hlow : ∃ d ∈ (net.node i).dependencies, P d.target
    · obtain ⟨d, hd, hp⟩ := hlow
      exact ih d hd hp
    · exact ⟨i, h, fun d hd hp => hlow ⟨d, hd, hp⟩⟩

/-- What holds of a node whenever it holds of the nodes that depend on it holds of all nodes. -/
theorem induction_dependants {P : Nat → Prop}
    (step : ∀ i, (∀ m, ∀ d ∈ (net.node m).dependencies, d.target = i → P m) → P i) (i : Nat) :
    P i := by
  induction h : net.order.length - net.order.idxOf i using Nat.strongRecOn
      generalizing i with
  | ind n ih =>
    apply step
    rintro m d hd rfl
    have hlt := hw.idxOf_target_lt hd
    have hm : m ∈ net.order := (hw.mem_order m).mpr (hw.lt_size_of_dependency hd)
    have := List.idxOf_lt_length_of_mem hm
    exact ih _ (by omega) m rfl

/-! ## Flags of neighbours -/

/-- A node may be needed for all that a node in front of it may be needed for. -/
theorem conditionalRead_of_plain (hd : d ∈ (net.node i).dependencies) (hg : d.guard = none)
    {flag : Nat} (hf : flag ∈ (net.node i).conditionalRead) :
    flag ∈ (net.node d.target).conditionalRead :=
  (hw.mem_conditionalRead d.target (hw.target_lt_size hd) flag).mpr
    (.inr ⟨i, d, hd, rfl, .inl ⟨hg, hf⟩⟩)

/-- A node may be needed for the requirement of a branch that it stands behind. -/
theorem conditionalRead_of_guard (hd : d ∈ (net.node i).dependencies) {g : Guard}
    (hg : d.guard = some g) {flag : Nat}
    (hf : (net.node i).requirementFlag? g.branch = some flag) :
    flag ∈ (net.node d.target).conditionalRead :=
  (hw.mem_conditionalRead d.target (hw.target_lt_size hd) flag).mpr
    (.inr ⟨i, d, hd, rfl, .inr ⟨g, hg, hf⟩⟩)

theorem lt_limit_of_mem_invalid {flag : Nat} (hf : flag ∈ (net.node i).invalid) :
    flag < net.limit := by
  induction i using hw.induction_targets with
  | step i ih =>
    by_cases hi : i < net.size
    · rcases (hw.mem_invalid i hi flag).mp hf with rfl | hown | ⟨d, hd, hf⟩
      · exact hw.allFlag_lt
      · exact hw.flag_lt i flag hown
      · exact ih d hd hf
    · rw [node_of_size_le (by omega)] at hf
      exact absurd hf (FlagSet.not_mem_empty flag)

/-- An invalid flag is no requirement. -/
theorem requirement?_of_mem_invalid {flag : Nat} (hf : flag ∈ (net.node i).invalid) :
    net.flags.requirement? flag = none := by
  rw [Option.eq_none_iff_forall_ne_some]
  rintro ⟨c, b⟩ h
  have := hw.limit_le_of_requirement flag c b h
  have := hw.lt_limit_of_mem_invalid hf
  omega

end WellFormed

end Net
end BindingPlan
