import Mathlib.Data.List.Nodup
import BindingPlan.Graph.Edges

/-!
# Edges of a classified graph

What can be read off the edges of a node, whatever the graph. Edges join dynamic nodes, and a guard
names the predicate of its node, on which the node also depends without a guard.

Main results:

* `Graph.target_of_dependency`: where an edge leads to, and where its guard comes from.
* `mem_dependantsOf`: edges seen from their targets.
-/

namespace BindingPlan
namespace Graph

variable {graph : Graph} {i : Nat} {d : Dependency}

theorem node_of_size_le (h : graph.size ≤ i) : graph.node i = default := by
  simp only [size] at h
  simp [node, h]

theorem lt_size_of_isDynamic (h : graph.isDynamic i = true) : i < graph.size := by
  by_contra hi
  rw [isDynamic, node_of_size_le (by omega)] at h
  exact absurd h (by decide)

theorem lt_size_of_predicate? {p : Nat} (h : (graph.node i).predicate? = some p) :
    i < graph.size := by
  by_contra hi
  rw [node_of_size_le (by omega)] at h
  exact absurd h (by simp [show (default : Node).predicate? = none from rfl])

/-! ## Edges -/

theorem isDynamic_of_dependency (hd : d ∈ graph.dependencies i) : graph.isDynamic i = true := by
  unfold dependencies Node.dependencies at hd
  split_ifs at hd with h
  · exact absurd hd (by simp)
  · simpa [isDynamic] using h

theorem dependencies_of_size_le (h : graph.size ≤ i) : graph.dependencies i = [] := by
  rw [List.eq_nil_iff_forall_not_mem]
  intro d hd
  have := lt_size_of_isDynamic (isDynamic_of_dependency hd)
  omega

/-- An edge leads to a dynamic child; it is guarded only at a node with a dynamic predicate. -/
theorem target_of_dependency (hd : d ∈ graph.dependencies i) :
    graph.isDynamic d.target = true ∧
      ∀ g, d.guard = some g → (graph.node i).predicate? = some g.predicate ∧
        graph.isDynamic g.predicate = true := by
  unfold dependencies Node.dependencies at hd
  split_ifs at hd
  · exact absurd hd (by simp)
  have hplain : ∀ child position, (graph.node i).kind.plainDependency position child = d →
      d.target = child ∧ d.guard = none := by
    rintro child position rfl
    exact ⟨rfl, rfl⟩
  cases hp : (graph.node i).predicate? with
  | none =>
    simp only [hp, List.mem_map, List.mem_filter, Prod.exists] at hd
    obtain ⟨child, position, ⟨-, hdyn⟩, heq⟩ := hd
    obtain ⟨htarget, hguard⟩ := hplain child position heq
    exact ⟨htarget ▸ hdyn, by simp [hguard]⟩
  | some predicate =>
    simp only [hp] at hd
    split_ifs at hd with hpd
    · simp only [List.mem_filterMap, List.mem_filter, Prod.exists] at hd
      obtain ⟨child, position, ⟨-, hdyn⟩, heq⟩ := hd
      unfold Kind.guardedDependency? at heq
      split_ifs at heq
      · obtain rfl := Option.some.inj heq
        exact ⟨hdyn, by simp⟩
      · obtain ⟨branch, -, rfl⟩ := Option.map_eq_some_iff.mp heq
        refine ⟨hdyn, ?_⟩
        rintro g ⟨⟩
        exact ⟨rfl, hpd⟩
    · simp only [List.mem_map, List.mem_filter, Prod.exists] at hd
      obtain ⟨child, position, ⟨-, hdyn⟩, heq⟩ := hd
      obtain ⟨htarget, hguard⟩ := hplain child position heq
      exact ⟨htarget ▸ hdyn, by simp [hguard]⟩

/-- An edge leads to a child. -/
theorem target_mem_children (hd : d ∈ graph.dependencies i) :
    d.target ∈ (graph.node i).children := by
  have hchild : ∀ child position,
      (child, position) ∈ (graph.node i).children.zipIdx.filter (graph.isDynamic ·.1) →
      child ∈ (graph.node i).children := fun child position hmem =>
    List.fst_mem_of_mem_zipIdx (List.mem_filter.mp hmem).1
  unfold dependencies Node.dependencies at hd
  split_ifs at hd
  · exact absurd hd List.not_mem_nil
  have hplain : d ∈ ((graph.node i).children.zipIdx.filter (graph.isDynamic ·.1)).map
        (fun pair => (graph.node i).kind.plainDependency pair.2 pair.1) →
      d.target ∈ (graph.node i).children := by
    intro hd
    obtain ⟨⟨child, position⟩, hmem, rfl⟩ := List.mem_map.mp hd
    exact hchild child position hmem
  dsimp only at hd
  split at hd
  · split_ifs at hd
    · obtain ⟨⟨child, position⟩, hmem, heq⟩ := List.mem_filterMap.mp hd
      have htarget : d.target = child := by
        unfold Kind.guardedDependency? at heq
        split_ifs at heq
        · rw [← Option.some.inj heq]
        · obtain ⟨branch, -, rfl⟩ := Option.map_eq_some_iff.mp heq
          rfl
      exact htarget ▸ hchild child position hmem
    · exact hplain hd
  · exact hplain hd

/-- A dynamic node with a dynamic predicate depends on it without a guard. -/
theorem dependency_on_predicate {p : Nat} (hi : graph.isDynamic i = true)
    (hp : (graph.node i).predicate? = some p) (hd : graph.isDynamic p = true) :
    ⟨p, true, none⟩ ∈ graph.dependencies i := by
  have hhead : (graph.node i).children[0]? = some p := by
    unfold Node.predicate? at hp
    split_ifs at hp
    rw [← hp, List.head?_eq_getElem?]
  unfold dependencies Node.dependencies
  have hi' : (graph.node i).isDynamic = true := hi
  simp only [hi', hp, hd, Bool.not_true, Bool.false_eq_true, if_false, if_true]
  refine List.mem_filterMap.mpr
    ⟨(p, 0), List.mem_filter.mpr ⟨?_, hd⟩, by simp [Kind.guardedDependency?]⟩
  exact List.mk_mem_zipIdx_iff_getElem?.mpr hhead

end Graph

theorem mem_dependantsOf {dependencies : Nat → List Dependency} {size i : Nat} {edge : Dependant} :
    edge ∈ dependantsOf dependencies size i ↔ edge.node < size ∧
      ∃ d, (dependencies edge.node)[edge.edge]? = some d ∧ d.target = i := by
  unfold dependantsOf
  simp only [List.mem_flatMap, List.mem_range, List.mem_filterMap, Prod.exists,
    List.mk_mem_zipIdx_iff_getElem?]
  constructor
  · rintro ⟨owner, hlt, d, position, hget, heq⟩
    split_ifs at heq with htarget
    obtain rfl := Option.some.inj heq
    exact ⟨hlt, d, hget, htarget⟩
  · rintro ⟨hlt, d, hget, htarget⟩
    exact ⟨edge.node, hlt, d, edge.edge, hget, by simp [htarget]⟩

end BindingPlan
