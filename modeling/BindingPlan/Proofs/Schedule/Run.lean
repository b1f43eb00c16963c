import BindingPlan.Proofs.Schedule.Layers
import BindingPlan.Proofs.Schedule.Reachable

/-!
# Whole runs

A run commits passes until the batch is empty. Every pass reads a node for a flag that it was not
read for before, so the bound on the number of passes is never reached; and what a node was read for
between two passes is what the passes in front of them list for it.

Main results:

* `Progress.runs_run`: reading a net to exhaustion succeeds, with the passes of a run.
* `Progress.Runs.pass_of_getElem?`: the state in which a pass of a run was made.
* `Progress.Runs.mem_readSoFar`: what the nodes were read for after a run.
-/

namespace BindingPlan

/-! ## Reads of passes -/

/-- The flags for which a list of reads reads a node. -/
def readFlags (reads : List ScheduledRead) (i : Nat) : FlagSet :=
  (reads.filter fun read => read.node == i).foldl (fun set read => set.union read.flags) .empty

theorem mem_readFlags {reads : List ScheduledRead} {i flag : Nat} :
    flag ∈ readFlags reads i ↔ ∃ read ∈ reads, read.node = i ∧ flag ∈ read.flags := by
  unfold readFlags
  rw [FlagSet.mem_foldl_union ScheduledRead.flags]
  simp [and_assoc]

namespace Progress

variable {net : Net} {progress last : Progress} {i flag : Nat} {layers : List (List Nat)}

theorem mem_reads_passOf {read : ScheduledRead} :
    read ∈ (progress.passOf layers).reads ↔ ∃ layer, layers[read.layer]? = some layer ∧
      read.node ∈ layer ∧ read.flags = (progress.mark read.node).shouldRead := by
  obtain ⟨node, flags, position⟩ := read
  simp only [passOf, List.mem_flatMap, List.mem_map, Prod.exists, List.mk_mem_zipIdx_iff_getElem?]
  constructor
  · rintro ⟨layer, k, hk, i, hi, heq⟩
    obtain ⟨rfl, rfl, rfl⟩ := ScheduledRead.mk.inj heq
    exact ⟨layer, hk, hi, rfl⟩
  · rintro ⟨layer, hk, hi, rfl⟩
    exact ⟨layer, position, hk, node, hi, rfl⟩

/-- A pass reads the nodes of the batch for the flags that they are asked for. -/
theorem Layered.mem_readFlags_passOf (hl : progress.Layered net [] (progress.batch net) layers) :
    flag ∈ readFlags (progress.passOf layers).reads i ↔
      i ∈ progress.batch net ∧ flag ∈ (progress.mark i).shouldRead := by
  rw [mem_readFlags, ← hl.perm.mem_iff, List.mem_flatten]
  constructor
  · rintro ⟨read, hread, rfl, hf⟩
    obtain ⟨layer, hk, hi, heq⟩ := mem_reads_passOf.mp hread
    exact ⟨⟨layer, List.mem_of_getElem? hk, hi⟩, heq ▸ hf⟩
  · rintro ⟨⟨layer, hmem, hi⟩, hf⟩
    obtain ⟨k, hk⟩ := List.getElem?_of_mem hmem
    exact ⟨⟨i, (progress.mark i).shouldRead, k⟩, mem_reads_passOf.mpr ⟨layer, hk, hi, rfl⟩, rfl, hf⟩

/-! ## Runs -/

/-- The passes that lead from a state to one in which nothing is left to read. -/
inductive Runs (net : Net) : Progress → List Pass → Progress → Prop where
  | done {progress : Progress} : progress.batch net = [] → Runs net progress [] progress
  | pass {progress last : Progress} {layers : List (List Nat)} {passes : List Pass} :
    progress.batch net ≠ [] → progress.Layered net [] (progress.batch net) layers →
      Runs net (progress.commit net) passes last →
      Runs net progress (progress.passOf layers :: passes) last

namespace Runs

variable {passes : List Pass}

theorem invariant_last (hw : net.WellFormed) (hr : Runs net progress passes last)
    (h : progress.Invariant net) : last.Invariant net ∧ last.batch net = [] := by
  induction hr with
  | done hb => exact ⟨h, hb⟩
  | pass _ _ _ ih => exact ih (h.commits hw (commits_commit hw h.upToDate))

/-- The nodes were read for what the passes list, besides what they were read for before. -/
theorem mem_readSoFar (hw : net.WellFormed) (hr : Runs net progress passes last)
    (h : progress.Invariant net) (i flag : Nat) :
    flag ∈ (last.mark i).readSoFar ↔ flag ∈ (progress.mark i).readSoFar ∨
      flag ∈ readFlags (passes.flatMap Pass.reads) i := by
  induction hr with
  | done => simp [mem_readFlags]
  | pass _ hl _ ih =>
    have hc := commits_commit hw h.upToDate
    rw [ih (h.commits hw hc), hc.mem_readSoFar, ← hl.mem_readFlags_passOf, or_assoc]
    simp only [mem_readFlags, List.flatMap_cons, List.mem_append, or_and_right, exists_or]

/-- A pass of a run was made in a state in which the nodes were read for what the passes in front of
it list. -/
theorem pass_of_getElem? (hw : net.WellFormed) (hr : Runs net progress passes last)
    (h : progress.Invariant net) {k : Nat} {pass : Pass} (hk : passes[k]? = some pass) :
    ∃ (middle : Progress) (layers : List (List Nat)), middle.Invariant net ∧
      middle.Layered net [] (middle.batch net) layers ∧ pass = middle.passOf layers ∧
      ∀ i flag, flag ∈ (middle.mark i).readSoFar ↔ flag ∈ (progress.mark i).readSoFar ∨
        flag ∈ readFlags ((passes.take k).flatMap Pass.reads) i := by
  induction hr generalizing k with
  | done => simp at hk
  | @pass progress last layers passes _ hl _ ih =>
    cases k with
    | zero =>
      obtain rfl := Option.some.inj hk
      exact ⟨progress, layers, h, hl, rfl, by simp [mem_readFlags]⟩
    | succ k =>
      have hc := commits_commit hw h.upToDate
      obtain ⟨middle, layers', hm, hl', hpass, hread⟩ := ih (h.commits hw hc) hk
      refine ⟨middle, layers', hm, hl', hpass, fun i flag => ?_⟩
      rw [hread, hc.mem_readSoFar, ← hl.mem_readFlags_passOf, or_assoc]
      simp only [mem_readFlags, List.take_succ_cons, List.flatMap_cons, List.mem_append,
        or_and_right, exists_or]

end Runs

/-! ## Termination -/

/-- The pairs of a node and a flag that it may be needed for. -/
def needs (net : Net) : List (Nat × Nat) :=
  net.ids.flatMap fun i => (net.node i).conditionalRead.toList.map fun f => (i, f)

theorem mem_needs : (i, flag) ∈ needs net ↔ i < net.size ∧ flag ∈ (net.node i).conditionalRead := by
  simp [needs, Net.ids, FlagSet.mem_iff_contains]

theorem length_needs : (needs net).length = workload net := by
  rw [needs, List.length_flatMap, List.sum_eq_foldl, List.foldl_map]
  simp only [List.length_map, FlagSet.length_toList]
  rfl

/-- The pairs of a node and a flag that it may be needed for and was not read for. -/
def outstanding (net : Net) (progress : Progress) : List (Nat × Nat) :=
  (needs net).filter fun need => !(progress.mark need.1).readSoFar.contains need.2

theorem mem_outstanding : (i, flag) ∈ progress.outstanding net ↔
    (i < net.size ∧ flag ∈ (net.node i).conditionalRead) ∧
      flag ∉ (progress.mark i).readSoFar := by
  simp [outstanding, mem_needs, FlagSet.mem_iff_contains]

variable (hw : net.WellFormed) (h : progress.Invariant net)
include hw h

theorem outstanding_commit :
    (progress.commit net).outstanding net = (progress.outstanding net).filter fun need =>
      !((progress.commit net).mark need.1).readSoFar.contains need.2 := by
  rw [outstanding, outstanding, List.filter_filter]
  apply List.filter_congr
  rintro ⟨i, f⟩ -
  have hmono : f ∈ (progress.mark i).readSoFar → f ∈ ((progress.commit net).mark i).readSoFar :=
    (commits_commit hw h.upToDate).readSoFar_mono
  simp only [FlagSet.mem_iff_contains] at hmono
  cases hold : (progress.mark i).readSoFar.contains f with
  | false => simp
  | true => simp [hmono hold]

/-- A pass over a batch that is not empty leaves less to read. -/
theorem length_outstanding_commit_lt (hb : progress.batch net ≠ []) :
    ((progress.commit net).outstanding net).length < (progress.outstanding net).length := by
  obtain ⟨i, hi⟩ := List.exists_mem_of_ne_nil _ hb
  obtain ⟨f, hf⟩ := (mem_pending h.upToDate).mp (batch_subset_pending hi)
  rw [outstanding_commit hw h]
  refine List.length_filter_lt_length_iff_exists.mpr
    ⟨(i, f), mem_outstanding.mpr ⟨⟨?_, ?_⟩, ?_⟩, ?_⟩
  · exact Net.lt_size_of_dynamic (h.upToDate.dynamic hf)
  · exact h.upToDate.mem_conditionalRead hf
  · exact h.upToDate.not_mem_readSoFar hf
  · have hread := (commits_commit hw h.upToDate).readSoFar_of_mem hi hf
    simpa [FlagSet.mem_iff_contains] using hread

theorem runs_runPasses {bound : Nat} (hb : (progress.outstanding net).length < bound) :
    ∃ passes last, progress.runPasses net bound = (last, .ok passes) ∧
      Runs net progress passes last := by
  induction bound generalizing progress with
  | zero => omega
  | succ bound ih =>
    rw [runPasses]
    by_cases hempty : progress.batch net = []
    · exact ⟨[], progress, by simp [hempty], .done hempty⟩
    obtain ⟨layers, hlayers, hl⟩ := exists_layers_batch hw h.upToDate
    have hnext := h.commits hw (commits_commit hw h.upToDate)
    have hlt := length_outstanding_commit_lt hw h hempty
    obtain ⟨passes, last, hrun, hruns⟩ := ih hnext (by omega)
    have hcons := Runs.pass hempty hl hruns
    simp only [List.isEmpty_iff, hempty, if_false, hlayers, mark?_eq_ok h.upToDate]
    by_cases hmore : (progress.commit net).batch net = []
    · -- the run of a state with nothing left to read has no passes
      cases hruns with
      | done => exact ⟨_, _, by simp [hmore], hcons⟩
      | pass hne _ _ => exact absurd hmore hne
    · refine ⟨_, _, ?_, hcons⟩
      simp [hmore, hrun]
      rfl

/-- Reading a net to exhaustion succeeds, with the passes of a run. -/
theorem runs_run : ∃ passes last,
    progress.run net = (last, .ok ⟨passes, net.flags.size, net.limit⟩) ∧
      Runs net progress passes last := by
  have hb : (progress.outstanding net).length < workload net + 1 := by
    rw [← length_needs]
    exact Nat.lt_succ_of_le (List.length_filter_le _ _)
  obtain ⟨passes, last, hrun, hruns⟩ := runs_runPasses hw h hb
  refine ⟨passes, last, ?_, hruns⟩
  unfold run
  rw [hrun]
  rfl

end Progress
end BindingPlan
