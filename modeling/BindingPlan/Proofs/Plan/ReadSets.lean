import BindingPlan.Proofs.Graph.Plan
import BindingPlan.Proofs.Schedule.Provided

/-!
# What nodes are asked for and read for

However many passes were committed, a node is asked for and was read for flags under which it may be
needed, and for no flag both. A flag that it is asked for was set from outside, or stands for a
branch whose guard was released. Reading only adds to what was read.

So in a plan no pass is empty, no pass reads a node twice, and no two passes read a node for the
same flag.

Main results:

* `reads_disciplined`: the read sets of all states on the way, and the passes of the plan.
-/

namespace BindingPlan

/-- The flag is the requirement of a branch that a dependency of a conditional stands behind; the
dependency is released, and the conditional is not read for good. -/
def RequirementOpen (net : Net) (progress : Progress) (flag : Nat) : Prop :=
  ∃ c b, net.flags.requirement? flag = some (c, b) ∧ (progress.mark c).isRead = false ∧
    ∃ d ∈ (net.node c).dependencies, (∃ g, d.guard = some g ∧ g.branch = b) ∧
      progress.isPendingGuard c d = false

structure ReadSets (net : Net) (progress : Progress) : Prop where
  asked : ∀ i, ∀ f ∈ (progress.mark i).shouldRead, f ∈ (net.node i).conditionalRead
  sofar : ∀ i, ∀ f ∈ (progress.mark i).readSoFar, f ∈ (net.node i).conditionalRead
  disjoint : ∀ i, ∀ f ∈ (progress.mark i).shouldRead, f ∉ (progress.mark i).readSoFar
  /-- Nothing is asked of nodes that cannot change, or that are read for good. -/
  nothing : ∀ i, (net.node i).isDynamic = false ∨ (progress.mark i).isRead = true →
    ∀ f, f ∉ (progress.mark i).shouldRead
  origin : ∀ i, ∀ f ∈ (progress.mark i).shouldRead,
    f < net.limit ∨ RequirementOpen net progress f

/-- Flags that nodes were read for, nodes that are read for good, and released guards stay. -/
structure Advances (net : Net) (progress next : Progress) : Prop where
  sofar : ∀ i, ∀ f ∈ (progress.mark i).readSoFar, f ∈ (next.mark i).readSoFar
  isRead : ∀ i, (progress.mark i).isRead = true → (next.mark i).isRead = true
  released : ∀ i, ∀ d ∈ (net.node i).dependencies, progress.isPendingGuard i d = false →
    next.isPendingGuard i d = false

/-- The read sets of all states that committing passes leads to, from the start of reading on. -/
def ReadSetsKept (net : Net) : Prop :=
  ∀ scheduler, Scheduler.Reaches net (.start (.start net)) scheduler →
    ReadSets net scheduler.progress ∧
      ∀ next more, scheduler.mark? net = .ok (next, more) →
        Advances net scheduler.progress next.progress

/-- No pass is empty, a pass reads a node once and for some flag, and different passes read a node
for different flags. -/
structure ReadsOnce (passes : List Pass) : Prop where
  nonempty : ∀ pass ∈ passes, pass.reads ≠ []
  once : ∀ pass ∈ passes, (pass.reads.map ScheduledRead.node).Nodup
  flags : ∀ pass ∈ passes, ∀ read ∈ pass.reads, read.flags.isEmpty = false
  apart : passes.Pairwise fun pass later => ∀ read ∈ pass.reads, ∀ other ∈ later.reads,
    read.node = other.node → read.flags.meets other.flags = false

namespace Progress

variable {net : Net} {progress next last : Progress} {i flag : Nat} {passes : List Pass}

/-! ## Read sets -/

/-- A flag that is asked for came down from a binding, or from a guard that is released. -/
theorem UpToDate.origin (hw : net.WellFormed) (hu : progress.UpToDate net)
    (hf : flag ∈ (progress.mark i).shouldRead) :
    flag < net.limit ∨ RequirementOpen net progress flag := by
  induction i using hw.induction_dependants with
  | step i ih =>
    obtain ⟨-, -, -, -, hask⟩ := (hu.mem_shouldRead i flag).mp hf
    rcases hask with ⟨-, hinv⟩ | ⟨m, d, hd, htarget, ⟨-, hm⟩ | ⟨g, hg, hr, hm, hflag⟩⟩
    · exact .inl (hw.lt_limit_of_mem_invalid hinv)
    · exact ih m d hd htarget hm
    · have hreq := (hw.requirement_iff flag m g.branch).mpr hflag
      exact .inr ⟨m, g.branch, hreq, hm, d, hd, ⟨g, hg, rfl⟩,
        isPendingGuard_eq_false.mpr fun _ => hr⟩

theorem Invariant.readSets (hw : net.WellFormed) (h : progress.Invariant net) :
    ReadSets net progress where
  asked _ _ hf := h.upToDate.mem_conditionalRead hf
  sofar := h.mem_conditionalRead
  disjoint _ _ hf := h.upToDate.not_mem_readSoFar hf
  nothing i hi f hf := by
    rcases hi with hconstant | hread
    · rw [h.upToDate.dynamic hf] at hconstant
      exact absurd hconstant (by decide)
    · rw [h.upToDate.not_isRead hf] at hread
      exact absurd hread (by decide)
  origin _ _ hf := h.upToDate.origin hw hf

theorem Commits.advances {nodes : List Nat} (hc : Commits net progress nodes next) :
    Advances net progress next where
  sofar _ _ hf := hc.readSoFar_mono hf
  isRead i hi := (hc.isRead_iff i).mpr (.inl hi)
  released i d _ hr := by
    rw [isPendingGuard_eq_false] at hr ⊢
    exact fun hg => (hc.released_iff i).mpr (.inl (hr hg))

/-! ## Reads of a pass -/

/-- The nodes of the reads of a pass, layer by layer. -/
theorem map_node_reads_passOf (layers : List (List Nat)) :
    (progress.passOf layers).reads.map ScheduledRead.node = layers.flatten := by
  simp only [passOf, List.map_flatMap, List.map_map, Function.comp_def, List.map_id']
  exact (List.flatMap_def ..).trans (congrArg List.flatten (List.zipIdx_map_fst ..))

namespace Runs

theorem reads_ne_nil (hr : Runs net progress passes last) : ∀ pass ∈ passes, pass.reads ≠ [] := by
  induction hr with
  | done => exact fun pass hpass => absurd hpass List.not_mem_nil
  | @pass progress _ layers _ hne hl _ ih =>
    intro pass hpass
    rcases List.mem_cons.mp hpass with rfl | hpass
    · intro hnil
      have hnodes := progress.map_node_reads_passOf layers
      rw [hnil, List.map_nil] at hnodes
      have hperm := hl.perm
      rw [← hnodes] at hperm
      exact hne hperm.nil_eq.symm
    · exact ih pass hpass

theorem readsOnce (hw : net.WellFormed) (hr : Runs net progress passes last)
    (h : progress.Invariant net) : ReadsOnce passes where
  nonempty := hr.reads_ne_nil
  once pass hpass := by
    obtain ⟨k, hk⟩ := List.getElem?_of_mem hpass
    obtain ⟨middle, layers, -, hl, rfl, -⟩ := hr.pass_of_getElem? hw h hk
    rw [map_node_reads_passOf]
    exact hl.perm.nodup_iff.mpr nodup_batch
  flags pass hpass read hread := by
    obtain ⟨k, hk⟩ := List.getElem?_of_mem hpass
    obtain ⟨middle, layers, -, hl, rfl, -⟩ := hr.pass_of_getElem? hw h hk
    obtain ⟨layer, hlayer, hi, hflags⟩ := mem_reads_passOf.mp hread
    rw [hflags, FlagSet.isEmpty_eq_false]
    exact hl.shouldRead_of_layer hlayer hi
  apart := by
    refine List.pairwise_iff_getElem.mpr fun j k hj hk hjk read hread other hother hnode => ?_
    obtain ⟨middle, layers, hm, -, hpass, hsofar⟩ :=
      hr.pass_of_getElem? hw h (List.getElem?_eq_getElem hk)
    rw [hpass] at hother
    obtain ⟨-, -, -, hflags⟩ := mem_reads_passOf.mp hother
    rw [← Bool.not_eq_true, FlagSet.meets_eq_true]
    rintro ⟨f, hf, hf'⟩
    rw [hflags] at hf'
    -- the earlier pass is one of those in front of the later one
    have hmem : passes[j] ∈ passes.take k :=
      List.mem_take_iff_getElem.mpr ⟨j, by omega, rfl⟩
    refine hm.upToDate.not_mem_readSoFar hf' ((hsofar other.node f).mpr (.inr ?_))
    exact mem_readFlags.mpr ⟨read, List.mem_flatMap.mpr ⟨_, hmem, hread⟩, hnode, hf⟩

end Runs

end Progress

/-- The read sets of a graph that was just sealed stay within what the nodes may be needed for, and
its plan reads no node twice for the same flag. -/
theorem reads_disciplined {graph : Graph} (h : graph.FreshlySealed) :
    ∃ net schedule last, graph.sealed? = some ⟨net, .start net⟩ ∧ ReadSetsKept net ∧
      (GraphM.plan).run.run graph = (.ok schedule, last) ∧ ReadsOnce schedule.passes := by
  obtain ⟨net, passes, last, hw, hsealed, hplan, hruns⟩ := h.exists_run
  have hstart := Progress.invariant_start hw
  refine ⟨net, _, _, hsealed, ?_, hplan, hruns.readsOnce hw hstart⟩
  intro scheduler hreach
  have hi := hreach.invariant hw hstart
  refine ⟨hi.readSets hw, fun next more hmark => ?_⟩
  unfold Scheduler.mark? at hmark
  rw [Progress.mark?_eq_ok hi.upToDate] at hmark
  obtain ⟨rfl, -⟩ := Prod.mk.inj (Except.ok.inj hmark)
  exact (Progress.commits_commit hw hi.upToDate).advances

theorem reads_disciplined_overlap :
    (Layout.overlap.sealedGraph .builtin).FreshlySealed ∧
      ∃ net schedule last,
        (Layout.overlap.sealedGraph .builtin).sealed? = some ⟨net, .start net⟩ ∧
        ReadSetsKept net ∧
        (GraphM.plan).run.run (Layout.overlap.sealedGraph .builtin) = (.ok schedule, last) ∧
        ReadsOnce schedule.passes :=
  ⟨Layout.freshlySealed_overlap, reads_disciplined Layout.freshlySealed_overlap⟩

end BindingPlan
