import BindingPlan.Proofs.Graph.Plan
import BindingPlan.Proofs.Schedule.Provided

/-!
# Planning always ends with everything read

Whatever the graph, no state of reading it is stuck: as long as something is pending there is a
batch, every batch has layers, and every batch can be committed. So planning a graph that was just
sealed succeeds, and leaves nothing to read. A node that some pass has read is held back by nothing
later on.

Main results:

* `planning_covers_bindings`: no deadlock, and every binding is read for all its invalid flags.
* `planning_never_fails`: no failure, and layers that follow the dependencies.
* `batch_holds_read_nodes`: once read, a node is in every batch for which it has flags to read.
* `layers_or_keys_of_largest_stuck`: the answer to any list of nodes that is to be ordered.
-/

namespace BindingPlan

/-! ## No deadlock -/

/-- As long as something is pending, there is a batch to read, however many passes were
committed. -/
def NoDeadlock (net : Net) : Prop :=
  ∀ scheduler, Scheduler.Reaches net (.start (.start net)) scheduler →
    scheduler.progress.pending net ≠ [] → scheduler.progress.batch net ≠ []

/-- The roots of bindings are read for all flags that make their values invalid. -/
def BindingsRead (net : Net) (passes : List Pass) : Prop :=
  ∀ i, (net.node i).isDynamic = true → (net.node i).isBinding = true →
    ∀ f ∈ (net.node i).invalid, f ∈ readFlags (passes.flatMap Pass.reads) i

/-- Reading a graph that was just sealed never deadlocks. Its plan leaves nothing pending, and reads
every binding for all that makes its value invalid. -/
theorem planning_covers_bindings {graph : Graph} (h : graph.FreshlySealed) :
    ∃ net schedule last, graph.sealed? = some ⟨net, .start net⟩ ∧ NoDeadlock net ∧
      (GraphM.plan).run.run graph = (.ok schedule, last) ∧
      (GraphM.pending).run.run last = (.ok [], last) ∧ BindingsRead net schedule.passes := by
  obtain ⟨net, passes, last, hw, hsealed, hplan, hruns⟩ := h.exists_run
  have hstart := Progress.invariant_start hw
  obtain ⟨hlast, hbatch⟩ := hruns.invariant_last hw hstart
  refine ⟨net, _, _, hsealed, ?_, hplan, ?_, ?_⟩
  · intro scheduler hreach hpending hnil
    exact hpending (Progress.pending_eq_nil_of_batch_eq_nil hw (hreach.invariant hw hstart) hnil)
  · rw [Graph.run_pending rfl, Progress.pending_eq_nil_of_batch_eq_nil hw hlast hbatch]
  · intro i hd hi f hf
    have hread := Progress.mem_readSoFar_of_batch_eq_nil hw hlast hbatch hd hi hf
    exact ((hruns.mem_readSoFar hw hstart i f).mp hread).resolve_left
      Progress.not_mem_readSoFar_start

theorem planning_covers_bindings_overlap :
    (Layout.overlap.sealedGraph .builtin).FreshlySealed ∧
      ∃ net schedule last,
        (Layout.overlap.sealedGraph .builtin).sealed? = some ⟨net, .start net⟩ ∧ NoDeadlock net ∧
        (GraphM.plan).run.run (Layout.overlap.sealedGraph .builtin) = (.ok schedule, last) ∧
        (GraphM.pending).run.run last = (.ok [], last) ∧ BindingsRead net schedule.passes :=
  ⟨Layout.freshlySealed_overlap, planning_covers_bindings Layout.freshlySealed_overlap⟩

/-! ## No failure -/

/-- Inside every pass, a node stands in a higher layer than the targets that are read with it. -/
def LayersFollow (net : Net) (passes : List Pass) : Prop :=
  ∀ pass ∈ passes, ∀ read ∈ pass.reads, ∀ d ∈ (net.node read.node).dependencies,
    ∀ other ∈ pass.reads, other.node = d.target → other.layer < read.layer

theorem Progress.Runs.layersFollow {net : Net} {progress last : Progress} {passes : List Pass}
    (hw : net.WellFormed) (hr : Runs net progress passes last) (h : progress.Invariant net) :
    LayersFollow net passes := by
  intro pass hpass read hread d hd other hother htarget
  obtain ⟨k, hk⟩ := List.getElem?_of_mem hpass
  obtain ⟨middle, layers, hm, hl, rfl, -⟩ := hr.pass_of_getElem? hw h hk
  obtain ⟨la, ha, hi, -⟩ := mem_reads_passOf.mp hread
  obtain ⟨lb, hb, ht, -⟩ := mem_reads_passOf.mp hother
  rw [htarget] at ht
  exact hl.layer_lt hm ha hi hd hb ht

/-- Every batch has layers and can be committed, however many passes were committed before. -/
def NeverStuck (net : Net) : Prop :=
  ∀ scheduler, Scheduler.Reaches net (.start (.start net)) scheduler →
    (∃ layers, scheduler.progress.layers net (scheduler.progress.batch net) = .ok layers) ∧
      ∃ next more, scheduler.mark? net = .ok (next, more)

/-- Planning a graph that was just sealed succeeds, and so does every single step on the way. -/
theorem planning_never_fails {graph : Graph} (h : graph.FreshlySealed) :
    ∃ net schedule last, graph.sealed? = some ⟨net, .start net⟩ ∧
      (GraphM.plan).run.run graph = (.ok schedule, last) ∧ NeverStuck net ∧
      LayersFollow net schedule.passes := by
  obtain ⟨net, passes, last, hw, hsealed, hplan, hruns⟩ := h.exists_run
  have hstart := Progress.invariant_start hw
  refine ⟨net, _, _, hsealed, hplan, ?_, hruns.layersFollow hw hstart⟩
  intro scheduler hreach
  have hu := (hreach.invariant hw hstart).upToDate
  obtain ⟨layers, hlayers, -⟩ := Progress.exists_layers_batch hw hu
  refine ⟨⟨layers, hlayers⟩, ?_⟩
  unfold Scheduler.mark?
  rw [Progress.mark?_eq_ok hu]
  exact ⟨_, _, rfl⟩

theorem planning_never_fails_overlap :
    (Layout.overlap.sealedGraph .builtin).FreshlySealed ∧
      ∃ net schedule last,
        (Layout.overlap.sealedGraph .builtin).sealed? = some ⟨net, .start net⟩ ∧
        (GraphM.plan).run.run (Layout.overlap.sealedGraph .builtin) = (.ok schedule, last) ∧
        NeverStuck net ∧ LayersFollow net schedule.passes :=
  ⟨Layout.freshlySealed_overlap, planning_never_fails Layout.freshlySealed_overlap⟩

/-! ## Nothing is held back again -/

/-- A node that was in the batch of a committed pass is in every later batch for which it has flags
to read. -/
def NeverHeldBack (net : Net) : Prop :=
  ∀ earlier next later more, Scheduler.Reaches net (.start (.start net)) earlier →
    earlier.mark? net = .ok (next, more) → Scheduler.Reaches net next later →
    ∀ i ∈ earlier.progress.batch net, (later.progress.mark i).shouldRead.isEmpty = false →
      i ∈ later.progress.batch net

/-- While a graph that was just sealed is read, a node that was read once waits for nothing. -/
theorem batch_holds_read_nodes {graph : Graph} (h : graph.FreshlySealed) :
    ∃ net, graph.sealed? = some ⟨net, .start net⟩ ∧ NeverHeldBack net := by
  obtain ⟨net, hw, hsealed⟩ := h.exists_net
  refine ⟨net, hsealed, ?_⟩
  intro earlier next later more hreach hmark hlater i hi hasked
  have hearlier := hreach.invariant hw (Progress.invariant_start hw)
  have hu := hearlier.upToDate
  have hc := Progress.commits_commit hw hu
  have hnext := (Scheduler.eq_commit_of_mark? hu hmark).1
  -- the pass read the node for the flags that it was asked for, which were some
  obtain ⟨f, hf⟩ := (Progress.mem_pending hu).mp (Progress.batch_subset_pending hi)
  have hread : next.progress.WasRead i := by
    rw [hnext]
    exact ⟨f, hc.readSoFar_of_mem hi hf⟩
  have hinvariant : next.progress.Invariant net := by
    rw [hnext]
    exact hearlier.commits hw hc
  exact (hlater.invariant hw hinvariant).mem_batch_of_wasRead hw
    (hlater.wasRead hw hinvariant hread) (FlagSet.isEmpty_eq_false.mp hasked)

theorem batch_holds_read_nodes_overlap :
    (Layout.overlap.sealedGraph .builtin).FreshlySealed ∧
      ∃ net, (Layout.overlap.sealedGraph .builtin).sealed? = some ⟨net, .start net⟩ ∧
        NeverHeldBack net :=
  ⟨Layout.freshlySealed_overlap, batch_holds_read_nodes Layout.freshlySealed_overlap⟩

/-! ## Any list of nodes -/

/-- In every state of reading, ordering any list of nodes, in which some may be missing or stand
twice, gives an answer. Either there are layers, no more than nodes, that together hold the list,
and each node stands in the first one in which it can be read; or the error lists the keys of the
largest part of the list that nothing outside of it makes readable, and this part is not empty. -/
theorem layers_or_keys_of_largest_stuck (graph : Graph) (net : Net) (progress : Progress)
    (nodes : List Nat) :
    (∃ layers, progress.layers net nodes = .ok layers ∧ layers.length ≤ nodes.length ∧
        Progress.Peeled net progress [] nodes layers) ∨
      ∃ rest, (progress.layers net nodes).mapError graph.scheduleError =
          .error (.noReadOrder (rest.map graph.keyOf)) ∧
        Progress.LargestStuck net progress nodes rest := by
  rcases Progress.layers_cases net progress nodes with
    ⟨layers, hlayers, hpeeled⟩ | ⟨rest, hrest, hlargest⟩
  · exact .inl ⟨layers, hlayers, hpeeled.length_le, hpeeled⟩
  · exact .inr ⟨rest, by rw [hrest]; rfl, hlargest⟩

end BindingPlan
