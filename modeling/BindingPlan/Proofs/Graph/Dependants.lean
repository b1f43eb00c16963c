import Mathlib.Data.List.Forall2
import BindingPlan.Proofs.Graph.Sources

/-!
# Edges and their positions

A dynamic node has one edge for each position among its children at which a dynamic child stands; a
child that stands at two of them is the target of two edges. Edges are numbered on their own, since
constant children have none, and a guard belongs to the position and not to the target. The
back-references of a node name each edge that leads to it once, by its number.

Main results:

* `Graph.forall₂_edgeAt`: the edges of a node go with its dynamic positions, one by one.
* `nodup_dependantsOf`: no edge is named twice.
* `edges_match`: edges and back-references of a sealed graph.
-/

namespace BindingPlan

/-! ## Operands -/

/-- The operand at the position is evaluated when the first operand has the value, and only then. -/
inductive Kind.Evaluates : Kind → Bool → Nat → Prop where
  | ifTrue : Kind.ternary.Evaluates true 1
  | ifFalse : Kind.ternary.Evaluates false 2
  | and : (Kind.binary (.logical .and)).Evaluates true 1
  | or : (Kind.binary (.logical .or)).Evaluates false 1

/-- Each operand of a conditional behind the first one is evaluated for one value of it. -/
theorem Kind.exists_branchAt? {kind : Kind} {count position : Nat} (haccepts : kind.Accepts count)
    (hkind : kind.isConditional = true) (hlt : position < count) (hpos : position ≠ 0) :
    ∃ branch, kind.branchAt? position = some branch ∧ kind.Evaluates branch position := by
  cases kind with
  | ternary =>
    obtain rfl : count = 3 := haccepts
    obtain rfl | rfl : position = 1 ∨ position = 2 := by omega
    · exact ⟨true, rfl, .ifTrue⟩
    · exact ⟨false, rfl, .ifFalse⟩
  | binary op =>
    obtain rfl : count = 2 := haccepts
    obtain rfl : position = 1 := by omega
    cases op with
    | logical op =>
      cases op with
      | and => exact ⟨true, rfl, .and⟩
      | or => exact ⟨false, rfl, .or⟩
    | _ => cases hkind
  | _ => cases hkind

namespace Graph

variable {graph : Graph} {i position child : Nat}

/-- A conditional whose first operand is dynamic: it is decided anew which operand is evaluated. -/
def Decides (graph : Graph) (i : Nat) : Prop :=
  (graph.node i).kind.isConditional = true ∧
    ∃ first, (graph.node i).children[0]? = some first ∧ graph.isDynamic first = true

/-- The positions of the dynamic children of a node. -/
def dynamicPositions (graph : Graph) (i : Nat) : List Nat :=
  (List.range (graph.node i).children.length).filter fun position =>
    (graph.node i).children[position]?.any graph.isDynamic

/-- The edge to the child at a position. The operands of a conditional behind a dynamic first one
are guarded by it; receivers and first operands of conditionals are mandatory. -/
structure EdgeAt (graph : Graph) (i position : Nat) (d : Dependency) : Prop where
  target : (graph.node i).children[position]? = some d.target
  guarded_iff : d.guard.isSome = true ↔ graph.Decides i ∧ position ≠ 0
  guard : ∀ g, d.guard = some g → (graph.node i).children[0]? = some g.predicate ∧
    (graph.node i).kind.Evaluates g.branch position
  mandatory_iff : d.mandatory = true ↔ position = 0 ∧
    ((graph.node i).kind.hasReceiver = true ∨ (graph.node i).kind.isConditional = true)

/-! ## One edge for each position -/

theorem predicate?_eq_some {first : Nat} : (graph.node i).predicate? = some first ↔
    (graph.node i).kind.isConditional = true ∧ (graph.node i).children[0]? = some first := by
  unfold Node.predicate?
  rw [List.head?_eq_getElem?]
  split_ifs with hkind <;> simp [hkind]

theorem edgeAt_plain (hchild : (graph.node i).children[position]? = some child)
    (hdynamic : graph.isDynamic child = true) (hdecides : ¬ graph.Decides i) :
    graph.EdgeAt i position ((graph.node i).kind.plainDependency position child) where
  target := hchild
  guarded_iff := iff_of_false Bool.false_ne_true fun h => hdecides h.1
  guard := nofun
  mandatory_iff := by
    -- the first operand of a conditional is not dynamic here, and has no edge
    have hfirst : position = 0 → (graph.node i).kind.isConditional = false := by
      rintro rfl
      by_contra hkind
      exact hdecides ⟨by simpa using hkind, child, hchild, hdynamic⟩
    simp only [Kind.plainDependency, Bool.and_eq_true, beq_iff_eq]
    rw [and_comm]
    refine and_congr_right fun hposition => (or_iff_left ?_).symm
    simp [hfirst hposition]

theorem exists_edgeAt_guarded {first : Nat} (hshaped : graph.Shaped)
    (hpredicate : (graph.node i).predicate? = some first) (hfirst : graph.isDynamic first = true)
    (hchild : (graph.node i).children[position]? = some child) :
    ∃ d, (graph.node i).kind.guardedDependency? first position child = some d ∧
      graph.EdgeAt i position d := by
  obtain ⟨hkind, hhead⟩ := predicate?_eq_some.mp hpredicate
  have hdecides : graph.Decides i := ⟨hkind, first, hhead, hfirst⟩
  unfold Kind.guardedDependency?
  split_ifs with hposition
  · subst hposition
    exact ⟨_, rfl, hchild, iff_of_false Bool.false_ne_true fun h => h.2 rfl, nofun,
      iff_of_true rfl ⟨rfl, .inr hkind⟩⟩
  · obtain ⟨hlt, -⟩ := List.getElem?_eq_some_iff.mp hchild
    obtain ⟨branch, hbranch, hevaluates⟩ :=
      Kind.exists_branchAt? (hshaped i) hkind hlt hposition
    rw [hbranch]
    refine ⟨_, rfl, hchild, iff_of_true rfl ⟨hdecides, hposition⟩, ?_,
      iff_of_false Bool.false_ne_true fun h => hposition h.1⟩
    rintro g ⟨⟩
    exact ⟨hhead, hevaluates⟩

/-- The dynamic children with their positions stand at the dynamic positions. -/
theorem map_snd_dynamic : ((graph.node i).children.zipIdx.filter fun pair =>
    graph.isDynamic pair.1).map Prod.snd = graph.dynamicPositions i := by
  rw [dynamicPositions, List.range_eq_range', ← List.zipIdx_map_snd, List.filter_map]
  refine congrArg _ (List.filter_congr ?_)
  rintro ⟨child, position⟩ hmem
  simp [List.mk_mem_zipIdx_iff_getElem?.mp hmem]

/-- What is found for every element of a list goes with the elements one by one. -/
theorem forall₂_filterMap {α β γ : Type} {R : β → γ → Prop} {f : α → β} {found : α → Option γ}
    {list : List α} (h : ∀ a ∈ list, ∃ c, found a = some c ∧ R (f a) c) :
    List.Forall₂ R (list.map f) (list.filterMap found) := by
  induction list with
  | nil => exact .nil
  | cons a list ih =>
    obtain ⟨c, hc, hR⟩ := h a List.mem_cons_self
    rw [List.map_cons, List.filterMap_cons_some hc]
    exact .cons hR (ih fun a ha => h a (List.mem_cons_of_mem _ ha))

/-- The edges of a dynamic node go with its dynamic positions, one by one. -/
theorem forall₂_edgeAt (hshaped : graph.Shaped) (hi : graph.isDynamic i = true) :
    List.Forall₂ (graph.EdgeAt i) (graph.dynamicPositions i) (graph.dependencies i) := by
  have hnode : (graph.node i).isDynamic = true := hi
  rw [← map_snd_dynamic]
  unfold dependencies Node.dependencies
  rw [hnode, Bool.not_true, if_neg Bool.false_ne_true]
  have hplain (hdecides : ¬ graph.Decides i) : List.Forall₂ (graph.EdgeAt i)
      (((graph.node i).children.zipIdx.filter fun pair => graph.isDynamic pair.1).map Prod.snd)
      (((graph.node i).children.zipIdx.filter fun pair => graph.isDynamic pair.1).map fun pair =>
        (graph.node i).kind.plainDependency pair.2 pair.1) := by
    rw [List.forall₂_map_left_iff, List.forall₂_map_right_iff, List.forall₂_same]
    rintro ⟨child, position⟩ hmem
    obtain ⟨hmem, hdynamic⟩ := List.mem_filter.mp hmem
    exact edgeAt_plain (List.mk_mem_zipIdx_iff_getElem?.mp hmem) hdynamic hdecides
  cases hpredicate : (graph.node i).predicate? with
  | none =>
    refine hplain fun ⟨hkind, first, hhead, _⟩ => ?_
    rw [predicate?_eq_some.mpr ⟨hkind, hhead⟩] at hpredicate
    cases hpredicate
  | some first =>
    dsimp only
    split_ifs with hfirst
    · refine forall₂_filterMap ?_
      rintro ⟨child, position⟩ hmem
      have hchild := List.mk_mem_zipIdx_iff_getElem?.mp (List.mem_filter.mp hmem).1
      exact exists_edgeAt_guarded hshaped hpredicate hfirst hchild
    · refine hplain fun ⟨_, first', hhead, hfirst'⟩ => ?_
      cases (predicate?_eq_some.mp hpredicate).2.symm.trans hhead
      exact hfirst hfirst'

theorem dependencies_of_constant (hi : graph.isDynamic i = false) : graph.dependencies i = [] := by
  rw [List.eq_nil_iff_forall_not_mem]
  intro d hd
  exact Bool.false_ne_true (hi.symm.trans (isDynamic_of_dependency hd))

end Graph

/-! ## Back-references -/

/-- No edge is named twice: owners are apart, and so are the numbers of the edges of an owner. -/
theorem nodup_dependantsOf (dependencies : Nat → List Dependency) (size i : Nat) :
    (dependantsOf dependencies size i).Nodup := by
  have howner {owner : Nat} {pair : Dependency × Nat} {edge : Dependant}
      (h : (if pair.1.target = i then some (⟨owner, pair.2⟩ : Dependant) else none) = some edge) :
      edge = ⟨owner, pair.2⟩ := by
    split_ifs at h
    exact (Option.some.inj h).symm
  refine List.nodup_flatMap.mpr ⟨fun owner _ => ?_, List.nodup_range.imp fun hne => ?_⟩
  · have hapart : (dependencies owner).zipIdx.Pairwise fun pair other => pair.2 ≠ other.2 := by
      rw [← List.pairwise_map (f := Prod.snd), List.zipIdx_map_snd]
      exact List.nodup_range'
    refine List.pairwise_filterMap.mpr (hapart.imp fun hne edge hedge other hother heq => hne ?_)
    rw [howner hedge, howner hother] at heq
    exact congrArg Dependant.edge heq
  · intro edge hedge hother
    obtain ⟨pair, -, hedge⟩ := List.mem_filterMap.mp hedge
    obtain ⟨other, -, hother⟩ := List.mem_filterMap.mp hother
    exact hne (congrArg Dependant.node ((howner hedge).symm.trans (howner hother)))

theorem Graph.nodup_dependants_bareNet {graph : Graph} (order : List Nat) (i : Nat) :
    ((graph.bareNet order).node i).dependants.Nodup := by
  by_cases hi : i < graph.size
  · rw [node_bareNet hi]
    exact nodup_dependantsOf graph.dependencies graph.size i
  · rw [node_bareNet_of_size_le (by omega)]
    exact List.nodup_nil

/-! ## Sealed graphs -/

/-- The edges of a net are those that the nodes of the graph need. Constant nodes have none; dynamic
ones have an edge for each dynamic child, wherever it stands; and each edge is referred to once from
its target, and from no other node. -/
structure Graph.EdgesMatch (graph : Graph) (net : Net) : Prop where
  constant : ∀ i, graph.isDynamic i = false → (net.node i).dependencies = []
  dynamic : ∀ i, graph.isDynamic i = true →
    List.Forall₂ (graph.EdgeAt i) (graph.dynamicPositions i) (net.node i).dependencies
  dependants : ∀ target edge, (net.node target).dependants.count edge =
    if (net.node edge.node).dependencies[edge.edge]?.map Dependency.target = some target then 1
    else 0

/-- In a graph that requests or a binder have built and that was sealed, edges go with the positions
of dynamic children, and back-references with edges. -/
theorem edges_match {classes : ClassRegistry} {before graph : Graph} (hmodelled : before.Modelled)
    (hrun : (GraphM.sealGraph classes).run.run before = (.ok ⟨⟩, graph)) :
    ∃ net, graph.sealed? = some ⟨net, .start net⟩ ∧ graph.EdgesMatch net := by
  obtain ⟨hshaped, -⟩ := (hmodelled.grown_of_seal hrun).classed
  obtain ⟨net, hnet, hsealed⟩ := Graph.FreshlySealed.exists_net? ⟨classes, before, hrun⟩
  obtain ⟨order, -, rfl⟩ := Graph.net?_eq_ok hnet
  refine ⟨_, hsealed, fun i hi => ?_, fun i hi => ?_, fun target edge => ?_⟩
  · rw [Net.dependencies_withFlow, Graph.dependencies_bareNet, Graph.dependencies_of_constant hi]
  · rw [Net.dependencies_withFlow, Graph.dependencies_bareNet]
    exact Graph.forall₂_edgeAt hshaped hi
  · rw [Net.dependants_withFlow, Net.dependencies_withFlow, Graph.dependencies_bareNet,
      (Graph.nodup_dependants_bareNet order target).count]
    refine if_congr ?_ rfl rfl
    rw [Graph.mem_dependants_bareNet, Option.map_eq_some_iff]

/-- A variable that is both the predicate of a choice and one of its branches. -/
def ownChoice : List Call :=
  [.addVariable "a" "boolean", .addVariable "b" "boolean", .parse "a ? a : b"]

theorem edges_match_ownChoice :
    let graph := ((GraphM.sealGraph .builtin).run.run (Binder.after .builtin ownChoice).graph).2
    graph.isDynamic 2 = true ∧ graph.dynamicPositions 2 = [0, 1, 2] ∧
      ∃ net, graph.sealed? = some ⟨net, .start net⟩ ∧
        List.Forall₂ (graph.EdgeAt 2) [0, 1, 2] (net.node 2).dependencies ∧
        ∀ target edge, (net.node target).dependants.count ⟨2, edge⟩ =
          if (net.node 2).dependencies[edge]?.map Dependency.target = some target then 1
          else 0 := by
  intro graph
  have hrun : (GraphM.sealGraph .builtin).run.run (Binder.after .builtin ownChoice).graph =
      (.ok ⟨⟩, graph) := Graph.run_sealGraph_of_isOk (by decide +kernel)
  have hdynamic : graph.isDynamic 2 = true := by decide +kernel
  have hpositions : graph.dynamicPositions 2 = [0, 1, 2] := by decide +kernel
  obtain ⟨net, hsealed, hmatch⟩ := edges_match (.inr ⟨_, _, rfl⟩) hrun
  exact ⟨hdynamic, hpositions, net, hsealed, hpositions ▸ hmatch.dynamic 2 hdynamic,
    fun target edge => hmatch.dependants target ⟨2, edge⟩⟩

/-- The choice is referred to twice from `a`, by its first edge and by the one to its branch. -/
example :
    let graph := ((GraphM.sealGraph .builtin).run.run (Binder.after .builtin ownChoice).graph).2
    (graph.netNodeOf 0).dependants = [⟨2, 0⟩, ⟨2, 1⟩] ∧ (graph.netNodeOf 2).dependencies =
      [⟨0, true, none⟩, ⟨0, false, some ⟨0, true⟩⟩, ⟨1, false, some ⟨0, false⟩⟩] := by
  decide +kernel

end BindingPlan
