import BindingPlan.Proofs.Graph.Plan
import BindingPlan.Proofs.Schedule.Exhaustion

/-!
# Exhaustion is final

Reading a graph that was just sealed comes to a commit that leaves nothing to read. From there on
commits succeed and change nothing, and planning the graph again makes no pass.

Main results:

* `exhaustion_final`: exhaustion is reached, and no number of commits leaves it.
-/

namespace BindingPlan

/-- However many passes are committed from this state of reading on, with the scheduler that led to
it or with another one, no node changes and nothing is left to read. -/
def StaysExhausted (net : Net) (progress : Progress) : Prop :=
  ∀ first last, first.progress = progress → Scheduler.Reaches net first last →
    last.progress = progress ∧
      last.mark? net = .ok (⟨progress, .exhausted, last.committed + 1⟩, false)

theorem Progress.Exhausted.stays {net : Net} {progress : Progress} (hw : net.WellFormed)
    (h : progress.Exhausted net) : StaysExhausted net progress := by
  rintro first last rfl hreach
  have hlast := hreach.progress_eq hw h
  refine ⟨hlast, ?_⟩
  rw [← hlast] at h ⊢
  exact Scheduler.mark?_of_exhausted hw h

/-- Planning succeeds, makes no pass and keeps the graph. -/
def PlansNothing (graph : Graph) : Prop :=
  ∃ schedule, schedule.passes = [] ∧ (GraphM.plan).run.run graph = (.ok schedule, graph)

theorem plansNothing_of_batch_eq_nil {graph : Graph} {state : Sealed}
    (h : graph.sealed? = some state) (hb : state.progress.batch state.net = []) :
    PlansNothing graph := by
  refine ⟨⟨[], state.net.flags.size, state.net.limit⟩, rfl, ?_⟩
  rw [Graph.run_plan h, Progress.run_of_batch_eq_nil hb]
  cases graph
  cases h
  rfl

/-- Whichever commit leaves nothing to read, further ones change nothing, and planning the graph in
the state behind it makes no pass. -/
def ExhaustionFinal (graph : Graph) (net : Net) : Prop :=
  ∀ last exhausted, Scheduler.Reaches net (.start (.start net)) last →
    last.mark? net = .ok (exhausted, false) →
      StaysExhausted net exhausted.progress ∧
        PlansNothing { graph with sealed? := some ⟨net, exhausted.progress⟩ }

/-- Reading a graph that was just sealed comes to a commit that leaves nothing to read, which is
final; and planning the graph a second time makes no pass. -/
theorem exhaustion_final {graph : Graph} (h : graph.FreshlySealed) :
    ∃ net schedule planned, graph.sealed? = some ⟨net, .start net⟩ ∧
      (∃ last exhausted, Scheduler.Reaches net (.start (.start net)) last ∧
        last.mark? net = .ok (exhausted, false)) ∧
      ExhaustionFinal graph net ∧
      (GraphM.plan).run.run graph = (.ok schedule, planned) ∧ PlansNothing planned := by
  obtain ⟨net, passes, last, hw, hsealed, hplan, hruns⟩ := h.exists_run
  have hstart := Progress.invariant_start hw
  refine ⟨net, _, _, hsealed, Scheduler.exists_mark?_false hw hstart, ?_, hplan, ?_⟩
  · intro last exhausted hreach hmark
    have hexhausted := Scheduler.exhausted_of_mark? hw (hreach.invariant hw hstart) hmark
    exact ⟨hexhausted.stays hw, plansNothing_of_batch_eq_nil rfl hexhausted.batch_eq_nil⟩
  · exact plansNothing_of_batch_eq_nil rfl (hruns.invariant_last hw hstart).2

theorem exhaustion_final_overlap :
    (Layout.overlap.sealedGraph .builtin).FreshlySealed ∧
      ∃ net schedule planned,
        (Layout.overlap.sealedGraph .builtin).sealed? = some ⟨net, .start net⟩ ∧
        (∃ last exhausted, Scheduler.Reaches net (.start (.start net)) last ∧
          last.mark? net = .ok (exhausted, false)) ∧
        ExhaustionFinal (Layout.overlap.sealedGraph .builtin) net ∧
        (GraphM.plan).run.run (Layout.overlap.sealedGraph .builtin) = (.ok schedule, planned) ∧
        PlansNothing planned :=
  ⟨Layout.freshlySealed_overlap, exhaustion_final Layout.freshlySealed_overlap⟩

end BindingPlan
