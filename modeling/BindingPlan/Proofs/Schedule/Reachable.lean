import BindingPlan.Proofs.Schedule.Invariant
import BindingPlan.Schedule.Plan

/-!
# Reading pass by pass

Committing a batch never fails, and as long as something is pending, there is a batch to commit: of
the nodes that are asked for, one whose targets are not asked for is never held back. When the
batch is empty, the values of all bindings were read for all that makes them invalid.

Main results:

* `Progress.mark?_eq_ok`: a batch can be committed.
* `Progress.exists_mem_batch`: a node that is asked for keeps the batch from being empty.
* `Progress.mem_readSoFar_of_batch_eq_nil`: what was read when nothing is left.
* `Scheduler.Reaches.invariant`: the invariant holds whenever passes were committed.
-/

namespace BindingPlan
namespace Progress

variable {net : Net} {progress : Progress} {i flag : Nat}

theorem commits_commit (hw : net.WellFormed) (hu : progress.UpToDate net) :
    Commits net progress (progress.batch net) (progress.commit net) :=
  commits_commitNodes hw hu.size_eq

/-- A batch can be committed, since it holds dynamic nodes only. -/
theorem mark?_eq_ok (hu : progress.UpToDate net) :
    progress.mark? net = .ok (progress.commit net, !((progress.commit net).batch net).isEmpty) := by
  have hnone : (progress.batch net).find? (fun i => !(net.node i).isDynamic) = none := by
    rw [List.find?_eq_none]
    intro i hi
    obtain ⟨f, hf⟩ := (mem_pending hu).mp (batch_subset_pending hi)
    simp [hu.dynamic hf]
  unfold mark?
  simp only [hnone]
  rfl

/-! ## No deadlock -/

/-- Below every node that is asked for there is one to read now, or the node is itself one. -/
theorem exists_mem_batch (hw : net.WellFormed) (h : progress.Invariant net)
    (hf : flag ∈ (progress.mark i).shouldRead) : ∃ m, m ∈ progress.batch net := by
  obtain ⟨m, ⟨f, hf⟩, hlow⟩ :=
    hw.exists_lowest (P := fun i => ∃ f, f ∈ (progress.mark i).shouldRead) ⟨flag, hf⟩
  refine ⟨m, (mem_batch hw h.upToDate).mpr ⟨⟨f, hf⟩, fun d hd => ?_⟩⟩
  have hnone : ∀ d ∈ (net.node m).dependencies, ∀ f, f ∉ (progress.mark d.target).shouldRead :=
    fun d hd f hf => hlow d hd ⟨f, hf⟩
  -- the predicate of a guard is not asked for, so it was read for all that the node is asked for
  have hrel : d.guard.isSome = true → (progress.mark m).released = true := by
    intro hg
    obtain ⟨g, hg⟩ := Option.isSome_iff_exists.mp hg
    obtain ⟨-, p, hp, htarget, hplain⟩ := hw.guard_predicate m d hd g hg
    apply h.released_of_known m d hd g hg
    rw [← htarget]
    cases hread : (progress.mark p.target).isRead with
    | true => exact .inl rfl
    | false =>
      refine .inr ⟨⟨f, hf⟩, fun f' hf' => ?_⟩
      exact (h.upToDate.flag_of_plain hw hp hplain hread hf').resolve_left (hnone p hp f')
  refine ⟨hrel, ?_⟩
  cases ht : (progress.mark d.target).isRead with
  | true => exact .inl rfl
  | false =>
    have hunread := h.upToDate.not_isRead hf
    exact .inr (.inr (h.covers_of_not_asked hw hd hunread ht (hnone d hd) hrel))

/-- With an empty batch, no node is asked for anything. -/
theorem not_mem_shouldRead_of_batch_eq_nil (hw : net.WellFormed) (h : progress.Invariant net)
    (hb : progress.batch net = []) : flag ∉ (progress.mark i).shouldRead := by
  intro hf
  obtain ⟨m, hm⟩ := exists_mem_batch hw h hf
  rw [hb] at hm
  exact absurd hm List.not_mem_nil

theorem pending_eq_nil_of_batch_eq_nil (hw : net.WellFormed) (h : progress.Invariant net)
    (hb : progress.batch net = []) : progress.pending net = [] := by
  rw [List.eq_nil_iff_forall_not_mem]
  intro i hi
  obtain ⟨f, hf⟩ := (mem_pending h.upToDate).mp hi
  exact not_mem_shouldRead_of_batch_eq_nil hw h hb hf

/-- When nothing is left to read, the value of a binding was read for all that makes it invalid. -/
theorem mem_readSoFar_of_batch_eq_nil (hw : net.WellFormed) (h : progress.Invariant net)
    (hb : progress.batch net = []) (hd : (net.node i).isDynamic = true)
    (hi : (net.node i).isBinding = true) (hf : flag ∈ (net.node i).invalid) :
    flag ∈ (progress.mark i).readSoFar := by
  by_contra hnot
  have hmem : flag ∈ (net.node i).conditionalRead :=
    (hw.mem_conditionalRead i (Net.lt_size_of_dynamic hd) flag).mpr (.inl ⟨hi, hf⟩)
  cases hread : (progress.mark i).isRead with
  | true =>
    -- an invalid flag is no requirement
    obtain ⟨c, b, hreq, -⟩ := h.settled i hread flag hmem hnot
    rw [hw.requirement?_of_mem_invalid hf] at hreq
    exact absurd hreq (by simp)
  | false =>
    have hasked : flag ∈ (progress.mark i).shouldRead :=
      (h.upToDate.mem_shouldRead i flag).mpr ⟨hd, hread, hmem, hnot, .inl ⟨hi, hf⟩⟩
    exact not_mem_shouldRead_of_batch_eq_nil hw h hb hasked

end Progress

/-! ## Committed passes -/

namespace Scheduler

variable {net : Net} {first scheduler next last : Scheduler} {more : Bool} {i : Nat}

theorem exists_mark? (hu : scheduler.progress.UpToDate net) :
    ∃ next more, scheduler.mark? net = .ok (next, more) := by
  unfold mark?
  rw [Progress.mark?_eq_ok hu]
  exact ⟨_, _, rfl⟩

/-- A scheduler commits the batch, and tells whether the next one holds anything. -/
theorem eq_commit_of_mark? (hu : scheduler.progress.UpToDate net)
    (h : scheduler.mark? net = .ok (next, more)) :
    next.progress = scheduler.progress.commit net ∧ more = !(next.progress.batch net).isEmpty := by
  unfold mark? at h
  rw [Progress.mark?_eq_ok hu] at h
  obtain ⟨rfl, rfl⟩ := Prod.mk.inj (Except.ok.inj h)
  exact ⟨rfl, rfl⟩

/-- Committing passes leads from one state of reading to another. -/
inductive Reaches (net : Net) (first : Scheduler) : Scheduler → Prop where
  | refl : Reaches net first first
  | mark {scheduler next : Scheduler} {more : Bool} :
    Reaches net first scheduler → scheduler.mark? net = .ok (next, more) → Reaches net first next

theorem Reaches.trans (hr : Reaches net first scheduler) (hr' : Reaches net scheduler last) :
    Reaches net first last := by
  induction hr' with
  | refl => exact hr
  | mark _ hmark ih => exact ih.mark hmark

theorem Reaches.invariant (hw : net.WellFormed) (hr : Reaches net first last)
    (h : first.progress.Invariant net) : last.progress.Invariant net := by
  induction hr with
  | refl => exact h
  | mark _ hmark ih =>
    rw [(eq_commit_of_mark? ih.upToDate hmark).1]
    exact ih.commits hw (Progress.commits_commit hw ih.upToDate)

/-- What was read once was read in all later states. -/
theorem Reaches.wasRead (hw : net.WellFormed) (hr : Reaches net first last)
    (h : first.progress.Invariant net) (hi : first.progress.WasRead i) :
    last.progress.WasRead i := by
  induction hr with
  | refl => exact hi
  | mark hr hmark ih =>
    have hu := (hr.invariant hw h).upToDate
    rw [(eq_commit_of_mark? hu hmark).1]
    exact (Progress.commits_commit hw hu).wasRead_mono ih

end Scheduler
end BindingPlan
