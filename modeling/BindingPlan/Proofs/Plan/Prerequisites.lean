import BindingPlan.Proofs.Graph.Plan
import BindingPlan.Proofs.Schedule.Provided

/-!
# Prerequisites of reads

In the plan of a graph that was just sealed, everything that a read needs was read before: in an
earlier pass, or in a lower layer of the same pass.

Main results:

* `prerequisites_available`: the targets of every read were read before, for all that it needs.
-/

namespace BindingPlan

/-- The targets of every read were read before it, for what the read needs of them. -/
def PrerequisitesAvailable (net : Net) (passes : List Pass) : Prop :=
  ∀ k pass, passes[k]? = some pass → ∀ read ∈ pass.reads,
    ∀ d ∈ (net.node read.node).dependencies,
      let before := readsBefore passes k read.layer
      (∃ earlier ∈ before, earlier.node = d.target) ∧
        Provided net read.node read.flags d (readFlags before d.target)

/-- The plan of a graph that was just sealed reads nothing before its prerequisites. -/
theorem prerequisites_available {graph : Graph} (h : graph.FreshlySealed) :
    ∃ net schedule last, graph.sealed? = some ⟨net, .start net⟩ ∧
      (GraphM.plan).run.run graph = (.ok schedule, last) ∧
      PrerequisitesAvailable net schedule.passes := by
  obtain ⟨net, passes, last, hw, hsealed, hplan, hruns⟩ := h.exists_run
  refine ⟨net, _, _, hsealed, hplan, ?_⟩
  intro k pass hk read hread d hd before
  obtain ⟨⟨f, hf⟩, hprovided⟩ := hruns.provided hw hk hread hd
  obtain ⟨earlier, hmem, htarget, -⟩ := mem_readFlags.mp hf
  exact ⟨⟨earlier, hmem, htarget⟩, hprovided⟩

theorem prerequisites_available_overlap :
    (Layout.overlap.sealedGraph .builtin).FreshlySealed ∧
      ∃ net schedule last,
        (Layout.overlap.sealedGraph .builtin).sealed? = some ⟨net, .start net⟩ ∧
        (GraphM.plan).run.run (Layout.overlap.sealedGraph .builtin) = (.ok schedule, last) ∧
        PrerequisitesAvailable net schedule.passes :=
  ⟨Layout.freshlySealed_overlap, prerequisites_available Layout.freshlySealed_overlap⟩

end BindingPlan
