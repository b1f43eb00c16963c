import BindingPlan.Proofs.Graph.Plan
import BindingPlan.Proofs.Schedule.Settling

/-!
# States on the way

What holds in every state that committing passes leads to, from a graph that was just sealed.

What a node is asked for is handed on to the nodes that it depends on: behind a plain dependency all
of it, and behind a released guard the requirement of the branch. A target that is not asked for it
was read for it.

And what settles in such a state is a least set, which does not depend on the order of marking.

Main results:

* `demand_flows`: what nodes are asked for reaches the targets of their dependencies.
* `settling_least`: settling ends in time, with the least closed set, in whatever order.
-/

namespace BindingPlan

/-- The target of a dependency, if it is not read for good, is asked for or was read for what the
dependent node needs it for. -/
structure DemandFlows (net : Net) (progress : Progress) : Prop where
  plain : ∀ i, ∀ d ∈ (net.node i).dependencies, d.guard = none →
    (progress.mark d.target).isRead = false → ∀ f ∈ (progress.mark i).shouldRead,
      f ∈ (progress.mark d.target).shouldRead ∨ f ∈ (progress.mark d.target).readSoFar
  /-- Behind a guard this is the requirement of the branch, once the guard is released. -/
  guarded : ∀ i, ∀ d ∈ (net.node i).dependencies, ∀ g, d.guard = some g →
    progress.isPendingGuard i d = false → (progress.mark i).isRead = false →
    (progress.mark d.target).isRead = false →
      ∃ f, (net.node i).requirementFlag? g.branch = some f ∧
        (f ∈ (progress.mark d.target).shouldRead ∨ f ∈ (progress.mark d.target).readSoFar)

theorem Progress.UpToDate.demandFlows {net : Net} {progress : Progress} (hw : net.WellFormed)
    (hu : progress.UpToDate net) : DemandFlows net progress where
  plain _ _ hd hg ht _ hf := hu.flag_of_plain hw hd hg ht hf
  guarded i d hd g hg hreleased hi ht := by
    obtain ⟨f, hf⟩ := hw.guard_requirement i d hd g hg
    have hr := isPendingGuard_eq_false.mp hreleased (by rw [hg]; rfl)
    exact ⟨f, hf, hu.flag_of_guard hw hd hg hr hi ht hf⟩

/-- In every state that committing passes leads to, demand flows to dependencies. -/
theorem demand_flows {graph : Graph} (h : graph.FreshlySealed) :
    ∃ net, graph.sealed? = some ⟨net, .start net⟩ ∧
      ∀ scheduler, Scheduler.Reaches net (.start (.start net)) scheduler →
        DemandFlows net scheduler.progress := by
  obtain ⟨net, hw, hsealed⟩ := h.exists_net
  refine ⟨net, hsealed, fun scheduler hreach => ?_⟩
  exact (hreach.invariant hw (Progress.invariant_start hw)).upToDate.demandFlows hw

theorem demand_flows_overlap :
    (Layout.overlap.sealedGraph .builtin).FreshlySealed ∧
      ∃ net, (Layout.overlap.sealedGraph .builtin).sealed? = some ⟨net, .start net⟩ ∧
        ∀ scheduler, Scheduler.Reaches net (.start (.start net)) scheduler →
          DemandFlows net scheduler.progress :=
  ⟨Layout.freshlySealed_overlap, demand_flows Layout.freshlySealed_overlap⟩

/-- In every state that committing passes leads to, settling ends with the least closed set; and so
it does in the course of a commit, after nodes were read. What a commit leaves is read for good as
settling leaves it. -/
theorem settling_least {graph : Graph} (h : graph.FreshlySealed) :
    ∃ net, graph.sealed? = some ⟨net, .start net⟩ ∧
      ∀ scheduler, Scheduler.Reaches net (.start (.start net)) scheduler →
        scheduler.progress.SettlesLeast net ∧
        ∀ nodes, (scheduler.progress.readBatch nodes).SettlesLeast net ∧
          (scheduler.progress.commitNodes net nodes).readNodes =
            ((scheduler.progress.readBatch nodes).settle net).readNodes := by
  obtain ⟨net, hw, hsealed⟩ := h.exists_net
  refine ⟨net, hsealed, fun scheduler hreach => ?_⟩
  have hs := (hreach.invariant hw (Progress.invariant_start hw)).upToDate.size_eq
  refine ⟨Progress.settlesLeast hs, fun nodes => ?_⟩
  exact ⟨Progress.settlesLeast (Progress.size_readBatch.trans hs),
    Progress.readNodes_commitNodes hs⟩

theorem settling_least_overlap :
    (Layout.overlap.sealedGraph .builtin).FreshlySealed ∧
      ∃ net, (Layout.overlap.sealedGraph .builtin).sealed? = some ⟨net, .start net⟩ ∧
        ∀ scheduler, Scheduler.Reaches net (.start (.start net)) scheduler →
          scheduler.progress.SettlesLeast net ∧
          ∀ nodes, (scheduler.progress.readBatch nodes).SettlesLeast net ∧
            (scheduler.progress.commitNodes net nodes).readNodes =
              ((scheduler.progress.readBatch nodes).settle net).readNodes :=
  ⟨Layout.freshlySealed_overlap, settling_least Layout.freshlySealed_overlap⟩

end BindingPlan
