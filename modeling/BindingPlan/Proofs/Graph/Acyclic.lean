import BindingPlan.Proofs.Graph.Node
import BindingPlan.Proofs.Graph.Seal
import BindingPlan.Proofs.Net.Cycles
import Mathlib.Algebra.Order.BigOperators.Group.List
import Mathlib.Algebra.Order.Group.Nat
import Mathlib.Data.Finset.Card
import Mathlib.Logic.Relation

/-!
# Graphs without cycles

A graph has no cycle if its nodes can be ranked so that each one is above its children. A new node
is put on top; a child without children can be put at the bottom; and a node that takes the place
between another one and its child gets a rank between theirs.

Main results:

* `Graph.Acyclic.not_transGen`: no node is reached from itself along children.
* `Graph.Acyclic.exists_rank_lt`: ranks can be chosen below the number of nodes.
* `Graph.exists_net?_iff`: there is a read net if and only if the edges have no cycle.
* `Graph.Acyclic.exists_net`: a graph without cycles has a read net.
-/

namespace BindingPlan
namespace Graph

variable {graph : Graph} {node : Node} {parent child inner i : Nat}

/-- The second node is a child of the first one. -/
def HasChild (graph : Graph) (parent child : Nat) : Prop :=
  child ∈ (graph.node parent).children

/-- Each node is above its children. -/
def Ranks (graph : Graph) (rank : Nat → Nat) : Prop :=
  ∀ parent child, graph.HasChild parent child → rank child < rank parent

/-- The nodes can be ranked so that each one is above its children. -/
def Acyclic (graph : Graph) : Prop :=
  ∃ rank, graph.Ranks rank

theorem Acyclic.not_transGen (h : graph.Acyclic) (i : Nat) :
    ¬ Relation.TransGen graph.HasChild i i := by
  obtain ⟨rank, hrank⟩ := h
  have hlt {i j : Nat} (hij : Relation.TransGen graph.HasChild i j) : rank j < rank i := by
    induction hij with
    | single hchild => exact hrank _ _ hchild
    | tail _ hchild ih => exact Nat.lt_trans (hrank _ _ hchild) ih
  exact fun hi => Nat.lt_irrefl _ (hlt hi)

/-- The number of nodes of a lower rank is a rank below the number of nodes. -/
theorem Acyclic.exists_rank_lt (h : graph.Acyclic)
    (hchildren : ∀ i, ∀ child ∈ (graph.node i).children, child < graph.size) :
    ∃ rank, graph.Ranks rank ∧ ∀ i < graph.size, rank i < graph.size := by
  obtain ⟨rank, hrank⟩ := h
  let below (i : Nat) : Finset Nat := (Finset.range graph.size).filter fun j => rank j < rank i
  refine ⟨fun i => (below i).card, fun parent child hchild => Finset.card_lt_card ?_,
    fun i hi => ?_⟩
  · rw [Finset.ssubset_iff_of_subset]
    · refine ⟨child, ?_, fun hmem => Nat.lt_irrefl _ (Finset.mem_filter.mp hmem).2⟩
      refine Finset.mem_filter.mpr ⟨Finset.mem_range.mpr (hchildren parent child hchild), ?_⟩
      exact hrank parent child hchild
    · intro j hj
      obtain ⟨hj, hlt⟩ := Finset.mem_filter.mp hj
      exact Finset.mem_filter.mpr ⟨hj, Nat.lt_trans hlt (hrank parent child hchild)⟩
  · -- a node does not count itself
    have hsubset : below i ⊂ Finset.range graph.size := by
      rw [Finset.ssubset_iff_of_subset (Finset.filter_subset _ _)]
      exact ⟨i, Finset.mem_range.mpr hi, fun hmem => Nat.lt_irrefl _ (Finset.mem_filter.mp hmem).2⟩
    have hcard := Finset.card_lt_card hsubset
    rwa [Finset.card_range] at hcard

/-- The targets of the edges of a node. -/
def targets (graph : Graph) (i : Nat) : List Nat :=
  (graph.dependencies i).map Dependency.target

/-- A classified graph has a read net if and only if no node leads to itself along edges. -/
theorem exists_net?_iff : (∃ net, graph.net? = .ok net) ↔
    ∀ i < graph.size, ¬ Relation.TransGen (Needs graph.targets) i i := by
  have htargets : (graph.bareNet []).targets = graph.targets := by
    funext i
    rw [Net.targets, dependencies_bareNet, targets]
  have hedges : ∀ i < graph.size, ∀ j ∈ graph.targets i, j < graph.size := by
    intro i _ j hj
    obtain ⟨d, hd, rfl⟩ := List.mem_map.mp hj
    exact lt_size_of_isDynamic (target_of_dependency hd).1
  rw [← exists_dependencyOrder_iff hedges, ← htargets]
  constructor
  · rintro ⟨net, hnet⟩
    obtain ⟨order, horder, -⟩ := net?_eq_ok hnet
    exact ⟨order, horder⟩
  · rintro ⟨order, horder⟩
    have horder : dependencyOrder (graph.bareNet []).targets graph.size = .ok order := horder
    rw [net?_eq, horder]
    exact ⟨_, rfl⟩

/-- A graph without cycles has a read net, since edges lead to children. -/
theorem Acyclic.exists_net (h : graph.Acyclic) : ∃ net, graph.net? = .ok net := by
  have hchild (parent child : Nat) (hneeds : Needs graph.targets parent child) :
      graph.HasChild parent child := by
    obtain ⟨d, hd, rfl⟩ := List.mem_map.mp hneeds
    exact target_mem_children hd
  exact exists_net?_iff.mpr fun i _ hcycle =>
    h.not_transGen i (Relation.TransGen.mono hchild i i hcycle)

/-! ## Changes -/

theorem acyclic_empty : Acyclic .empty :=
  ⟨fun _ => 0, fun _ _ h => nomatch h⟩

theorem Acyclic.of_children_eq {next : Graph} (h : graph.Acyclic)
    (heq : ∀ i, (next.node i).children = (graph.node i).children) : next.Acyclic := by
  obtain ⟨rank, hrank⟩ := h
  refine ⟨rank, fun parent child hchild => hrank parent child ?_⟩
  rwa [HasChild, heq] at hchild

/-- A new node is put on top of its children. -/
theorem Acyclic.push (h : graph.Acyclic)
    (hold : ∀ i, ∀ child ∈ (graph.node i).children, child < graph.size)
    (hnew : ∀ child ∈ node.children, child < graph.size) : (graph.push node).Acyclic := by
  obtain ⟨rank, hrank⟩ := h
  refine ⟨fun i => if i = graph.size then (node.children.map rank).sum + 1 else rank i,
    fun parent child hchild => ?_⟩
  dsimp only
  rcases Nat.lt_trichotomy parent graph.size with hlt | rfl | hgt
  · rw [HasChild, children_push hlt] at hchild
    rw [if_neg (Nat.ne_of_lt (hold parent child hchild)), if_neg (Nat.ne_of_lt hlt)]
    exact hrank parent child hchild
  · rw [HasChild, node_push_self] at hchild
    rw [if_neg (Nat.ne_of_lt (hnew child hchild)), if_pos rfl]
    exact Nat.lt_succ_of_le (List.le_sum_of_mem (List.mem_map_of_mem hchild))
  · rw [HasChild, node_push_of_lt hgt, node_of_size_le (Nat.le_of_lt hgt)] at hchild
    cases hchild

theorem hasChild_replaceChild {position other : Nat}
    (h : (graph.replaceChild parent position child).HasChild i other) :
    graph.HasChild i other ∨ i = parent ∧ other = child := by
  rw [HasChild, children_replaceChild] at h
  split at h
  · next hi =>
    subst hi
    exact (List.mem_or_eq_of_mem_set h).imp_right fun heq => ⟨rfl, heq⟩
  · exact .inl h

/-- A child without children is put at the bottom. -/
theorem Acyclic.replaceChild_of_leaf {position : Nat} (h : graph.Acyclic)
    (hleaf : (graph.node child).children = []) :
    (graph.replaceChild parent position child).Acyclic := by
  obtain ⟨rank, hrank⟩ := h
  refine ⟨fun i => if (graph.node i).children = [] then 0 else rank i + 1,
    fun i other hchild => ?_⟩
  have hi : (graph.node i).children ≠ [] := by
    intro hnil
    rw [HasChild, children_replaceChild] at hchild
    split at hchild
    · next heq => simp [← heq, hnil] at hchild
    · simp [hnil] at hchild
  dsimp only
  rw [if_neg hi]
  rcases hasChild_replaceChild hchild with hold | ⟨-, rfl⟩
  · have := hrank i other hold
    split <;> omega
  · rw [if_pos hleaf]
    omega

/-- A node whose only child is a child of the parent is put in between. -/
theorem Acyclic.replaceChild_between {position receiver : Nat} (h : graph.Acyclic)
    (hne : parent ≠ inner) (hinner : (graph.node inner).children = [receiver])
    (hreceiver : graph.HasChild parent receiver) :
    (graph.replaceChild parent position inner).Acyclic := by
  obtain ⟨rank, hrank⟩ := h
  have hbelow : rank receiver < rank inner := by
    refine hrank inner receiver ?_
    rw [HasChild, hinner]
    exact List.mem_singleton_self receiver
  refine ⟨fun i => if i = inner then 2 * rank receiver + 1 else 2 * rank i,
    fun i other hchild => ?_⟩
  dsimp only
  rcases hasChild_replaceChild hchild with hold | ⟨rfl, rfl⟩
  · have hrank_old := hrank i other hold
    by_cases hi : i = inner
    · subst hi
      rw [HasChild, hinner, List.mem_singleton] at hold
      rw [if_pos rfl, hold, if_neg fun heq => Nat.ne_of_lt hbelow (congrArg rank heq)]
      omega
    · rw [if_neg hi]
      split
      · next hother =>
        subst hother
        omega
      · omega
  · have := hrank i receiver hreceiver
    rw [if_pos rfl, if_neg hne]
    omega

end Graph
end BindingPlan
