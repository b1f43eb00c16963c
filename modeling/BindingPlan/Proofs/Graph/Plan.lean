import BindingPlan.Binding.Analysis
import BindingPlan.Proofs.Graph.Seal
import BindingPlan.Proofs.Schedule.Run

/-!
# Plans of sealed graphs

Planning a graph that was just sealed is a run over its net.

Main results:

* `Graph.FreshlySealed.exists_run`: planning succeeds, with the passes of a run from the start.
* `Layout.freshlySealed_sealedGraph`: the graph of a layout is freshly sealed if sealing succeeds.
-/

namespace BindingPlan

theorem Graph.FreshlySealed.exists_run {graph : Graph} (h : graph.FreshlySealed) :
    ∃ net passes last, net.WellFormed ∧ graph.sealed? = some ⟨net, .start net⟩ ∧
      (GraphM.plan).run.run graph = (.ok ⟨passes, net.flags.size, net.limit⟩,
        { graph with sealed? := some ⟨net, last⟩ }) ∧
      Progress.Runs net (.start net) passes last := by
  obtain ⟨net, hw, hsealed⟩ := h.exists_net
  obtain ⟨passes, last, hrun, hruns⟩ := Progress.runs_run hw (Progress.invariant_start hw)
  refine ⟨net, passes, last, hw, hsealed, ?_, hruns⟩
  rw [Graph.run_plan hsealed, hrun]
  rfl

/-- Asking for the pending nodes keeps the graph. -/
theorem Graph.run_pending {graph : Graph} {state : Sealed} (h : graph.sealed? = some state) :
    (GraphM.pending).run.run graph = (.ok (state.progress.pending state.net), graph) := by
  unfold GraphM.pending GraphM.requireSealed
  simp only [GraphM.run_bind, GraphM.run_get, GraphM.run_pure, h]

/-! ## Graphs of layouts -/

namespace Layout

/-- The open graph of the bindings of a layout. -/
def boundGraph (classes : ClassRegistry) (layout : Layout) : Graph :=
  match declareImports layout.imports .empty >>= declareVariables layout.variableDecls with
  | .ok binder => (bindAll classes layout.bindings binder).2.graph
  | .error _ => .empty

/-- The graph of a layout once it is sealed. -/
def sealedGraph (classes : ClassRegistry) (layout : Layout) : Graph :=
  ((GraphM.sealGraph classes).run.run (layout.boundGraph classes)).2

theorem run_sealGraph {classes : ClassRegistry} {layout : Layout}
    (h : ((GraphM.sealGraph classes).run.run (layout.boundGraph classes)).1.isOk = true) :
    (GraphM.sealGraph classes).run.run (layout.boundGraph classes) =
      (.ok (), layout.sealedGraph classes) := by
  unfold sealedGraph
  generalize (GraphM.sealGraph classes).run.run (layout.boundGraph classes) = outcome at h ⊢
  obtain ⟨_ | ⟨⟩, graph⟩ := outcome
  · cases h
  · rfl

theorem freshlySealed_sealedGraph {classes : ClassRegistry} {layout : Layout}
    (h : ((GraphM.sealGraph classes).run.run (layout.boundGraph classes)).1.isOk = true) :
    (layout.sealedGraph classes).FreshlySealed :=
  ⟨classes, layout.boundGraph classes, run_sealGraph h⟩

/-- A variable that is bound itself and decides an inner conditional of another binding. -/
def overlap : Layout where
  classes := []
  imports := []
  variableDecls := [⟨"c", "boolean"⟩, ⟨"b", "boolean"⟩, ⟨"a", "boolean"⟩]
  bindings := ["b", "a && (b && c)"]

theorem freshlySealed_overlap : (overlap.sealedGraph .builtin).FreshlySealed :=
  freshlySealed_sealedGraph (by decide +kernel)

end Layout

end BindingPlan
