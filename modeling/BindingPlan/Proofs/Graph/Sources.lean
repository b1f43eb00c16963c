import BindingPlan.Proofs.Binding.Requests
import BindingPlan.Proofs.Graph.Classified
import BindingPlan.Proofs.Key.Plain

/-!
# Sources of change

A node is classified by its kind, its member and the classes of its children. Where static members
are accessed on classes only, this comes to one rule for all nodes: a node is dynamic if it is a
source of change, or if one of its children is dynamic. Dynamic nodes depend on each other without
cycles in a sealed graph, so that the dynamic nodes are those from which a source is reached.

Main results:

* `Graph.Classed.isDynamic_iff`: the rule for one node.
* `Graph.Classed.isDynamic_iff_reaches`: dynamic nodes are those that reach a source.
* `Graph.Grown.classed`: classes follow from those of children in graphs that are built by requests.
* `dynamic_iff_reachesSource`: in a sealed graph the dynamic nodes are those that reach a source.
-/

namespace BindingPlan
namespace Graph

variable {graph next : Graph} {i child : Nat}

/-- A source of change: a variable, a call, or an access to a getter or to a field that is not
final. -/
def IsSource (graph : Graph) (i : Nat) : Prop :=
  match (graph.node i).kind with
  | .identifier _ | .call _ => True
  | .field _ _ => ∃ member ∈ (graph.node i).member, member.kind = .method ∨ member.isDynamic = true
  | _ => False

/-- Static members are accessed on classes. -/
def StaticsAtClasses (graph : Graph) : Prop :=
  ∀ i < graph.size, ∀ member ∈ (graph.node i).member, member.isStatic = true →
    ∃ ref ∈ (graph.node i).children[0]?, (graph.node ref).kind.isClassRef = true

instance (graph : Graph) : Decidable graph.StaticsAtClasses :=
  inferInstanceAs (Decidable (∀ i < graph.size, ∀ member ∈ (graph.node i).member,
    member.isStatic = true →
      ∃ ref ∈ (graph.node i).children[0]?, (graph.node ref).kind.isClassRef = true))

/-- Every node has its type and its class. -/
def Decided (graph : Graph) : Prop :=
  ∀ i < graph.size, (graph.node i).resolvedType.isSome ∧ (graph.node i).dynamic.isSome

/-! ## One node -/

section

variable (hclassed : graph.Classed) (hdecided : graph.Decided)

include hclassed hdecided

theorem Classed.isDynamic_eq (hi : i < graph.size) : graph.isDynamic i = graph.classOf i := by
  obtain ⟨dynamic, hdynamic⟩ := Option.isSome_iff_exists.mp (hdecided i hi).2
  rw [← hclassed.eq_classOf i dynamic hdynamic]
  unfold isDynamic Node.isDynamic
  rw [hdynamic]
  rfl

/-- Classes never change. -/
theorem Classed.not_isDynamic_of_classRef (hkind : (graph.node i).kind.isClassRef = true) :
    graph.isDynamic i = false := by
  rcases Nat.lt_or_ge i graph.size with hi | hi
  · rw [hclassed.isDynamic_eq hdecided hi]
    unfold classOf
    cases hnode : (graph.node i).kind with
    | classRef => rfl
    | _ =>
      rw [hnode] at hkind
      cases hkind
  · rw [isDynamic, node_of_size_le hi]
    rfl

/-- A node is dynamic if it is a source or one of its children is dynamic. -/
theorem Classed.isDynamic_iff (hshaped : graph.Shaped) (hstatics : graph.StaticsAtClasses)
    (hi : i < graph.size) : graph.isDynamic i = true ↔
      graph.IsSource i ∨ ∃ child, graph.HasChild i child ∧ graph.isDynamic child = true := by
  rw [hclassed.isDynamic_eq hdecided hi]
  have haccepts := hshaped i
  have hany : ((graph.node i).children.map graph.isDynamic).any id = true ↔
      ∃ child, graph.HasChild i child ∧ graph.isDynamic child = true := by
    rw [List.any_map, List.any_eq_true]
    rfl
  unfold classOf IsSource
  cases hkind : (graph.node i).kind with
  | identifier | call => exact iff_of_true rfl (.inl trivial)
  | classRef | symbol =>
    rw [hkind] at haccepts
    have hnil : (graph.node i).children = [] := List.length_eq_zero_iff.mp haccepts
    refine iff_of_false Bool.false_ne_true ?_
    rintro (h | ⟨child, hchild, -⟩)
    · exact h
    · rw [HasChild, hnil] at hchild
      cases hchild
  | binary | unary | ternary => exact hany.trans (or_iff_right not_false).symm
  | field name unwrap =>
    rw [hkind] at haccepts
    obtain ⟨receiver, hchildren⟩ := List.length_eq_one_iff.mp haccepts
    obtain ⟨member, hmember⟩ := Option.isSome_iff_exists.mp
      (hclassed.accessed i (by rw [hkind]; rfl) (hdecided i hi).1)
    have hreceiver : (∃ child, graph.HasChild i child ∧ graph.isDynamic child = true) ↔
        graph.isDynamic receiver = true := by
      simp [HasChild, hchildren]
    rw [hreceiver, hchildren, hmember]
    -- the receiver of a static member is a class, and no class is dynamic
    have hstatic : member.isStatic = true → graph.isDynamic receiver = false := by
      intro hstatic
      obtain ⟨ref, href, hclass⟩ := hstatics i hi member hmember hstatic
      rw [hchildren] at href
      cases href
      exact hclassed.not_isDynamic_of_classRef hdecided hclass
    unfold GraphM.kindIsDynamic GraphM.fieldIsDynamic
    cases hmemberKind : member.kind <;> cases hdynamic : graph.isDynamic receiver <;>
      cases hmemberStatic : member.isStatic <;> simp_all

end

/-! ## Reaching a source -/

/-- A dynamic node with a dynamic child depends on a child. -/
theorem exists_dependency (hi : graph.isDynamic i = true) (hchild : graph.HasChild i child)
    (hdynamic : graph.isDynamic child = true) : ∃ d, d ∈ graph.dependencies i := by
  obtain ⟨position, hposition⟩ := List.getElem?_of_mem hchild
  have hmem : (child, position) ∈
      (graph.node i).children.zipIdx.filter fun pair => graph.isDynamic pair.1 :=
    List.mem_filter.mpr ⟨List.mk_mem_zipIdx_iff_getElem?.mpr hposition, hdynamic⟩
  have hnode : (graph.node i).isDynamic = true := hi
  cases hpredicate : (graph.node i).predicate? with
  | none =>
    refine ⟨(graph.node i).kind.plainDependency position child, ?_⟩
    unfold dependencies Node.dependencies
    simp only [hnode, hpredicate, Bool.not_true, Bool.false_eq_true, if_false]
    exact List.mem_map.mpr ⟨(child, position), hmem, rfl⟩
  | some predicate =>
    by_cases hp : graph.isDynamic predicate = true
    · exact ⟨_, dependency_on_predicate hi hpredicate hp⟩
    · refine ⟨(graph.node i).kind.plainDependency position child, ?_⟩
      unfold dependencies Node.dependencies
      simp only [hnode, hpredicate, hp, Bool.not_true, Bool.false_eq_true, if_false]
      exact List.mem_map.mpr ⟨(child, position), hmem, rfl⟩

/-- A source is reached along children. -/
def ReachesSource (graph : Graph) (i : Nat) : Prop :=
  ∃ source, Relation.ReflTransGen graph.HasChild i source ∧ graph.IsSource source

/-- Where a node is dynamic if it is a source or a child is dynamic, and dynamic nodes depend on
each other without cycles, the dynamic nodes are those that reach a source. -/
theorem Classed.isDynamic_iff_reaches (hclassed : graph.Classed) (hdecided : graph.Decided)
    (hshaped : graph.Shaped) (hlinked : graph.Linked) (hstatics : graph.StaticsAtClasses)
    {net : Net} (hnet : graph.net? = .ok net) (hi : i < graph.size) :
    graph.isDynamic i = true ↔ graph.ReachesSource i := by
  have hrule {i : Nat} (hi : i < graph.size) :=
    hclassed.isDynamic_iff hdecided hshaped hstatics hi
  constructor
  · obtain ⟨order, -, rfl⟩ := net?_eq_ok hnet
    have hwell := wellFormed_of_net? hnet
    -- the induction is on the edges of the net: a dynamic node that is no source has one
    induction i using hwell.induction_targets with
    | step i ih =>
      intro hdynamic
      obtain hsource | ⟨child, hchild, hdynamicChild⟩ := (hrule hi).mp hdynamic
      · exact ⟨i, .refl, hsource⟩
      · obtain ⟨d, hd⟩ := exists_dependency hdynamic hchild hdynamicChild
        have htarget := target_mem_children hd
        obtain ⟨source, hreaches, hsource⟩ := ih d
          (by rwa [Net.dependencies_withFlow, dependencies_bareNet])
          (hlinked.children_lt htarget) (target_of_dependency hd).1
        exact ⟨source, .head htarget hreaches, hsource⟩
  · rintro ⟨source, hreaches, hsource⟩
    induction hreaches using Relation.ReflTransGen.head_induction_on with
    | refl => exact (hrule hi).mpr (.inl hsource)
    | head hchild _ ih => exact (hrule hi).mpr (.inr ⟨_, hchild, ih (hlinked.children_lt hchild)⟩)

/-- What reaches no source has no child that does. -/
theorem not_reachesSource_of_child (h : ¬ graph.ReachesSource i) (hchild : graph.HasChild i child) :
    ¬ graph.ReachesSource child := by
  rintro ⟨source, hreaches, hsource⟩
  exact h ⟨source, .head hchild hreaches, hsource⟩

/-! ## Graphs that are built by requests -/

/-- Building sets no class and no type of a node that is there. -/
theorem classes_builds (h : Terms.typed.Builds graph next) : GraphM.Classes graph next := by
  cases h with
  | @register kind children _ _ writes =>
    refine GraphM.classes_of_retains fun hshaped => ⟨hshaped.push ?_, rests_push rfl nofun⟩
    obtain ⟨hleaf, rfl⟩ | ⟨haccepts, -⟩ := writes
    · exact hleaf
    · exact haccepts
  | addClass shortName imports =>
    have himports : GraphM.Classes graph ({ graph with imports := imports } : Graph) :=
      GraphM.classes_of_nodes rfl
    refine trans_of GraphM.Classes himports (GraphM.classes_of_retains fun hshaped => ?_)
    exact ⟨Shaped.push hshaped rfl, rests_push rfl nofun⟩
  | annotate id annotates =>
    have hnode := Node.Annotated.of_eq (annotates (graph.node id))
    exact GraphM.classes_of_retains fun hshaped =>
      ⟨hshaped.modify hnode.kind hnode.children, rests_annotate annotates⟩
  | importClass | advance => exact GraphM.classes_of_nodes rfl

theorem Grown.classed (h : Grown .typed .empty graph) : graph.Shaped ∧ graph.Classed := by
  have hclasses : GraphM.Classes .empty graph :=
    h.keeps (fun _ _ => classes_builds) (fun graph _ id _ => GraphM.classes_resolve id graph)
      (fun graph _ id _ => GraphM.classes_classify id graph)
      fun graph _ _ => GraphM.classes_sealGraph graph
  obtain ⟨hshaped, hclassed, -⟩ := hclasses (fun _ => rfl) classed_empty
  exact ⟨hshaped, hclassed⟩

/-- Sealing that succeeds leaves the sealed graph. -/
theorem run_sealGraph_of_isOk {classes : ClassRegistry}
    (h : ((GraphM.sealGraph classes).run.run graph).1.isOk = true) :
    (GraphM.sealGraph classes).run.run graph =
      (.ok ⟨⟩, ((GraphM.sealGraph classes).run.run graph).2) := by
  generalize (GraphM.sealGraph classes).run.run graph = outcome at h ⊢
  obtain ⟨_ | ⟨⟩, next⟩ := outcome
  · cases h
  · rfl

/-- In a graph that was just sealed every node has its type and its class. -/
theorem decided_of_run_sealGraph {classes : ClassRegistry}
    (hrun : (GraphM.sealGraph classes).run.run graph = (.ok ⟨⟩, next)) : next.Decided := by
  unfold GraphM.sealGraph at hrun
  rw [GraphM.run_bind, GraphM.run_get] at hrun
  dsimp only at hrun
  split at hrun
  · cases hrun
  · obtain ⟨_, classified, hclassify, hrun⟩ := Operation.exists_of_run_bind hrun
    rw [GraphM.run_bind, GraphM.run_get] at hrun
    dsimp only at hrun
    split at hrun
    · cases hrun
    · cases hrun
      exact fun i hi => GraphM.classified_of_run_classifyAll hclassify hi

end Graph

namespace Graph

theorem serves_typed (classes : ClassRegistry) : Terms.typed.Serves classes fun _ => True where
  literal := fun _ => rfl
  composed := fun _ _ _ hcomposes hchildren =>
    ⟨hcomposes.accepts, fun child hchild => (hchildren child hchild).1⟩
  findClass := fun _ _ _ => ⟨trivial, trivial⟩
  registry := trivial
  refers := fun _ _ _ hcomposed => hcomposed.2

/-- Requests over nodes, or a binder, have built the graph. -/
def Modelled (graph : Graph) : Prop :=
  Grown .typed .empty graph ∨ ∃ classes calls, graph = (Binder.after classes calls).graph

theorem Modelled.grown {graph : Graph} (h : graph.Modelled) : Grown .typed .empty graph := by
  obtain h | ⟨classes, calls, rfl⟩ := h
  · exact h
  · refine Binder.grown_after (serves_typed classes) trivial fun call _ => ?_
    cases call with
    | addVariable => rfl
    | addImport => exact fun _ => rfl
    | _ => trivial

/-- Sealing is one of the requests. -/
theorem Modelled.grown_of_seal {classes : ClassRegistry} {graph next : Graph} (h : graph.Modelled)
    (hrun : (GraphM.sealGraph classes).run.run graph = (.ok ⟨⟩, next)) :
    Grown .typed .empty next := by
  have hsealed := h.grown.request (.seal classes) ⟨trivial, .inl trivial⟩
  have hnext : Request.run graph (.seal classes) = next := congrArg Prod.snd hrun
  rwa [hnext] at hsealed

end Graph

/-- In a graph that requests or a binder have built and that was sealed, in which static members are
accessed on classes: a node is dynamic if and only if a variable, a call, a getter or a field that
is not final is reached from it along children, or it is one itself. So what hangs below a constant
is constant. -/
theorem dynamic_iff_reachesSource {classes : ClassRegistry} {graph next : Graph}
    (hmodelled : graph.Modelled) (hrun : (GraphM.sealGraph classes).run.run graph = (.ok ⟨⟩, next))
    (hstatics : next.StaticsAtClasses) :
    (∀ i < next.size, next.isDynamic i = true ↔ next.ReachesSource i) ∧
    ∀ i < next.size, next.isDynamic i = false →
      ∀ child ∈ (next.node i).children, next.isDynamic child = false := by
  have hgrown := hmodelled.grown_of_seal hrun
  obtain ⟨hshaped, hclassed⟩ := hgrown.classed
  have hlinked := hgrown.linked (fun _ _ _ hcomposed => hcomposed.2) Graph.linked_empty
  obtain ⟨net, hnet, -⟩ := Graph.FreshlySealed.exists_net? ⟨classes, graph, hrun⟩
  have hiff {i : Nat} (hi : i < next.size) : next.isDynamic i = true ↔ next.ReachesSource i :=
    hclassed.isDynamic_iff_reaches (Graph.decided_of_run_sealGraph hrun) hshaped hlinked hstatics
      hnet hi
  refine ⟨fun i => hiff, fun i hi hconstant child hchild => ?_⟩
  rw [← Bool.not_eq_true, hiff hi] at hconstant
  rw [← Bool.not_eq_true, hiff (hlinked.children_lt hchild)]
  exact Graph.not_reachesSource_of_child hconstant hchild

/-- The limit of a gauge is static and final, so it is constant although the gauge is a variable;
its level is read through the getter of the wrapper. -/
theorem dynamic_iff_reachesSource_gaugeLimit :
    let next := ((GraphM.sealGraph .gauge).run.run (Binder.after .gauge gaugeLimit).graph).2
    next.StaticsAtClasses ∧ ¬ next.ReachesSource 1 ∧ next.ReachesSource 2 := by
  intro next
  have hrun : (GraphM.sealGraph .gauge).run.run (Binder.after .gauge gaugeLimit).graph =
      (.ok ⟨⟩, next) := Graph.run_sealGraph_of_isOk (by decide +kernel)
  have hstatics : next.StaticsAtClasses := by decide +kernel
  have hconstant : 1 < next.size ∧ next.isDynamic 1 = false := by decide +kernel
  have hdynamic : 2 < next.size ∧ next.isDynamic 2 = true := by decide +kernel
  obtain ⟨hiff, -⟩ := dynamic_iff_reachesSource (.inr ⟨_, _, rfl⟩) hrun hstatics
  refine ⟨hstatics, fun hreaches => ?_, (hiff 2 hdynamic.1).mp hdynamic.2⟩
  exact Bool.false_ne_true (hconstant.2.symm.trans ((hiff 1 hconstant.1).mpr hreaches))

end BindingPlan
