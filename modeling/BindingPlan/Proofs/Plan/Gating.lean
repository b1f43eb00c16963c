import BindingPlan.Proofs.Graph.Plan
import BindingPlan.Proofs.Schedule.Provided

/-!
# Predicates before branches

In the plan of a graph that was just sealed, a node is read for the requirement of a branch only
after a pass that read the predicate.

Main results:

* `predicates_read_first`: the predicate of a conditional is read in an earlier pass than any node
  that is read for one of its requirements.
-/

namespace BindingPlan

/-- The passes in front of one that reads a node for the requirement of a conditional have read the
predicate of the conditional. -/
def PredicatesReadFirst (net : Net) (passes : List Pass) : Prop :=
  ∀ (k : Nat) (pass : Pass), passes[k]? = some pass → ∀ read ∈ pass.reads, ∀ f ∈ read.flags,
    ∀ c b, net.flags.requirement? f = some (c, b) → ∃ p, (net.node c).predicate = some p ∧
      ∃ (j : Nat) (earlier : Pass), j < k ∧ passes[j]? = some earlier ∧
        ∃ other ∈ earlier.reads, other.node = p

/-- What was read before a pass was read in a pass with a smaller position. -/
theorem exists_read_of_readFlags {passes : List Pass} {k i flag : Nat}
    (h : flag ∈ readFlags ((passes.take k).flatMap Pass.reads) i) :
    ∃ (j : Nat) (earlier : Pass), j < k ∧ passes[j]? = some earlier ∧
      ∃ read ∈ earlier.reads, read.node = i := by
  obtain ⟨read, hread, hnode, -⟩ := mem_readFlags.mp h
  obtain ⟨earlier, hearlier, hmem⟩ := List.mem_flatMap.mp hread
  obtain ⟨j, hj⟩ := List.getElem?_of_mem hearlier
  rw [List.getElem?_take] at hj
  split_ifs at hj with hjk
  exact ⟨j, earlier, hjk, hj, read, hmem, hnode⟩

theorem Progress.Runs.predicatesReadFirst {net : Net} {last : Progress} {passes : List Pass}
    (hw : net.WellFormed) (hr : Runs net (start net) passes last) :
    PredicatesReadFirst net passes := by
  intro k pass hk read hread f hf c b hreq
  obtain ⟨middle, layers, hm, -, rfl, hsofar⟩ := hr.pass_of_getElem? hw (invariant_start hw) hk
  obtain ⟨-, -, -, hflags⟩ := mem_reads_passOf.mp hread
  rw [hflags] at hf
  -- a conditional that is asked for a branch is released and not read for good
  obtain ⟨hrel, hunread⟩ := hm.upToDate.released_of_requirement hw hf hreq
  obtain ⟨p, hp, f', hf'⟩ := (hm.predicate_of_released c hrel).resolve_left (by simp [hunread])
  have hearlier := ((hsofar p f').mp hf').resolve_left not_mem_readSoFar_start
  exact ⟨p, hp, exists_read_of_readFlags hearlier⟩

/-- The plan of a graph that was just sealed reads predicates before the branches that they
decide. -/
theorem predicates_read_first {graph : Graph} (h : graph.FreshlySealed) :
    ∃ net schedule last, graph.sealed? = some ⟨net, .start net⟩ ∧
      (GraphM.plan).run.run graph = (.ok schedule, last) ∧
      PredicatesReadFirst net schedule.passes := by
  obtain ⟨net, passes, last, hw, hsealed, hplan, hruns⟩ := h.exists_run
  exact ⟨net, _, _, hsealed, hplan, hruns.predicatesReadFirst hw⟩

theorem predicates_read_first_overlap :
    (Layout.overlap.sealedGraph .builtin).FreshlySealed ∧
      ∃ net schedule last,
        (Layout.overlap.sealedGraph .builtin).sealed? = some ⟨net, .start net⟩ ∧
        (GraphM.plan).run.run (Layout.overlap.sealedGraph .builtin) = (.ok schedule, last) ∧
        PredicatesReadFirst net schedule.passes :=
  ⟨Layout.freshlySealed_overlap, predicates_read_first Layout.freshlySealed_overlap⟩

end BindingPlan
