import BindingPlan.Proofs.Graph.Plan
import BindingPlan.Proofs.Schedule.Convergence

/-!
# Planning converges

The plan of a graph that was just sealed has at most one pass more than the graph has conditionals
with a guarded dependency. Every such conditional has requirement flags of its own, so there are no
more passes than flags.

Main results:

* `planning_converges`: the loop of passes ends by itself within that bound.
-/

namespace BindingPlan

/-- Under every bound from the given one on, the loop of passes makes the same passes, and ends
because nothing is left to read. -/
def EndsWithin (net : Net) (limit : Nat) (passes : List Pass) : Prop :=
  ∃ last : Progress, last.pending net = [] ∧
    ∀ bound, limit ≤ bound → (Progress.start net).runPasses net bound = (last, .ok passes)

/-- Planning a graph that was just sealed ends after at most one pass more than there are
conditionals with a guarded dependency, which is at most the number of flags. -/
theorem planning_converges {graph : Graph} (h : graph.FreshlySealed) :
    ∃ net schedule last, graph.sealed? = some ⟨net, .start net⟩ ∧
      (GraphM.plan).run.run graph = (.ok schedule, last) ∧
      EndsWithin net (1 + net.guarding.length) schedule.passes ∧
      schedule.passes.length ≤ 1 + net.guarding.length ∧
      1 + net.guarding.length ≤ schedule.flagCount := by
  obtain ⟨net, hw, hsealed⟩ := h.exists_net
  have hstart := Progress.invariant_start hw
  obtain ⟨passes, last, hrun, hruns⟩ := Progress.runs_run hw hstart
  have hplan : (GraphM.plan).run.run graph = (.ok ⟨passes, net.flags.size, net.limit⟩,
      { graph with sealed? := some ⟨net, last⟩ }) := by
    rw [Graph.run_plan hsealed, hrun]
    rfl
  obtain ⟨hlast, hend⟩ := hruns.invariant_last hw hstart
  have hlength : passes.length ≤ 1 + net.guarding.length := by
    have hunreleased := List.length_filter_le (fun c => !((Progress.start net).mark c).released)
      net.guarding
    have := hruns.length_le hw hstart
    rw [Progress.unreleased] at this
    omega
  refine ⟨net, _, _, hsealed, hplan, ⟨last, ?_, fun bound hbound => ?_⟩, hlength, ?_⟩
  · exact Progress.pending_eq_nil_of_batch_eq_nil hw hlast hend
  · exact Progress.runPasses_eq (Progress.runPasses_of_run hrun) hend (Nat.le_trans hlength hbound)
  · have := hw.limit_add_guarding_le
    have := hw.allFlag_lt
    show 1 + net.guarding.length ≤ net.flags.size
    omega

theorem planning_converges_overlap :
    (Layout.overlap.sealedGraph .builtin).FreshlySealed ∧
      ∃ net schedule last,
        (Layout.overlap.sealedGraph .builtin).sealed? = some ⟨net, .start net⟩ ∧
        (GraphM.plan).run.run (Layout.overlap.sealedGraph .builtin) = (.ok schedule, last) ∧
        EndsWithin net (1 + net.guarding.length) schedule.passes ∧
        schedule.passes.length ≤ 1 + net.guarding.length ∧
        1 + net.guarding.length ≤ schedule.flagCount :=
  ⟨Layout.freshlySealed_overlap, planning_converges Layout.freshlySealed_overlap⟩

end BindingPlan
