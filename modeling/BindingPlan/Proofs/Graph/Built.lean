import BindingPlan.Proofs.Binding.Acyclic
import BindingPlan.Proofs.Binding.Rendering
import BindingPlan.Proofs.Graph.Plan

/-!
# Built graphs

A graph is built if steps of operations lead to it from the empty graph, whatever the operations
are, in which order they come, and which of them fail. Requests build graphs, and so do the
histories of a binder and the bindings of a layout.

Main results:

* `Graph.Reached.built`, `Binder.built_after`, `Layout.built_boundGraph`: what builds graphs.
* `Graph.FreshlyBuilt.built`: a built graph that was just sealed is still one.
-/

namespace BindingPlan
namespace Graph

variable {graph : Graph}

/-- Steps of operations lead to the graph from the empty one. -/
def Built (graph : Graph) : Prop :=
  (Rules.any fun _ => True).Steps .empty graph

theorem Built.linked (h : graph.Built) : graph.Linked :=
  linked_empty.steps h

theorem Reached.built (h : Reached graph) : graph.Built := by
  induction h with
  | empty => exact .refl
  | step reached request refers ih => exact ih.trans (request.steps_run reached.linked refers)

/-- Sealing has just succeeded on a built graph, and nothing was read since. -/
def FreshlyBuilt (graph : Graph) : Prop :=
  ∃ classes before, before.Built ∧ (GraphM.sealGraph classes).run.run before = (.ok (), graph)

theorem FreshlyBuilt.freshlySealed (h : graph.FreshlyBuilt) : graph.FreshlySealed := by
  obtain ⟨classes, before, -, hrun⟩ := h
  exact ⟨classes, before, hrun⟩

/-- Sealing takes steps, so it keeps a graph built. -/
theorem FreshlyBuilt.built (h : graph.FreshlyBuilt) : graph.Built := by
  obtain ⟨classes, before, hbuilt, hrun⟩ := h
  have hsteps := (GraphM.takes_sealGraph (Rules.free_any _) (Rules.covers_any _ classes)
    (hbuilt.linked.fits fun _ => True)).steps
  rw [hrun] at hsteps
  exact hbuilt.trans hsteps

end Graph

/-! ## Binders and layouts -/

theorem serves_built (classes : ClassRegistry) :
    (Graph.Rules.any fun _ => True).Serves classes (fun _ => True) Graph.Built :=
  serves_of_linked _ classes (fun _ h => h.linked) fun _ _ h hsteps => h.trans hsteps

theorem Binder.built_after (classes : ClassRegistry) (calls : List Call) :
    (Binder.after classes calls).graph.Built :=
  (meets_foldl calls (meets_empty .refl) (serves_built classes) fun _ => trivial).graph

namespace Layout

variable {classes : ClassRegistry} {layout : Layout}

theorem built_boundGraph : (layout.boundGraph classes).Built := by
  unfold boundGraph
  split
  · next declared hdeclared =>
    have hmeets : declared.Meets (fun _ => True) Graph.Built :=
      meets_declare .refl (serves_built classes) hdeclared
    let holds (_ : List String) (binder : Binder) := binder.Meets (fun _ => True) Graph.Built
    have hstep (done : List String) (source : String) (binder : Binder) (h : holds done binder) :
        holds (done ++ [source]) ((BinderM.bindSource classes source).run.run binder).2 :=
      h.steps (serves_built classes) (BinderM.takes_bindSource_of_any (serves_built classes)
        (fun _ => trivial) source h).steps
    have hbound : holds ([] ++ layout.bindings) (bindAll classes layout.bindings declared).2 :=
      bindAll_induction hstep hmeets
    exact hbound.graph
  · exact .refl

theorem freshlyBuilt_sealedGraph
    (h : ((GraphM.sealGraph classes).run.run (layout.boundGraph classes)).1.isOk = true) :
    (layout.sealedGraph classes).FreshlyBuilt :=
  ⟨classes, layout.boundGraph classes, built_boundGraph, run_sealGraph h⟩

end Layout
end BindingPlan
