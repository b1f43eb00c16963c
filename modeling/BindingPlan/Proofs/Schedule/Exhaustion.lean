import BindingPlan.Proofs.Schedule.Convergence

/-!
# Commits that change nothing

A commit settles nodes until no other node can settle, and releases every guard whose predicate is
read for good or under all of its invalid flags. Neither of them looks at what the nodes are asked
for now, so both are at rest behind a commit; what is left are guards that are released because the
conditional is asked for something, and there are none when the batch is empty.

Main results:

* `Progress.atRest_commitNodes`: what is at rest behind a commit, whatever was read in it.
* `Progress.Exhausted.commit_eq`: at rest and with an empty batch, another commit changes nothing.
* `Scheduler.Reaches.progress_eq`: no number of commits leaves an exhausted state.
* `Scheduler.exists_mark?_false`: exhaustion is reached from every state.
-/

namespace BindingPlan
namespace Progress

variable {net : Net} {progress next : Progress} {nodes : List Nat} {i : Nat}

/-! ## States at rest -/

/-- No node is left to settle, and every guard is released whose predicate is read for good or was
read under all of its invalid flags. -/
structure AtRest (net : Net) (progress : Progress) : Prop where
  settling_eq_nil : progress.settling net = []
  released_of_known : ∀ i, ∀ d ∈ (net.node i).dependencies, ∀ g, d.guard = some g →
    ((progress.mark g.predicate).isRead = true ∨
      ∀ f ∈ (net.node g.predicate).invalid, f ∈ (progress.mark g.predicate).readSoFar) →
    (progress.mark i).released = true

/-- What can settle depends on which nodes are read for good, and on what was read. -/
theorem settling_congr (hr : ∀ i, (next.mark i).isRead = (progress.mark i).isRead)
    (hf : ∀ i, (next.mark i).readSoFar = (progress.mark i).readSoFar) :
    next.settling net = progress.settling net := by
  refine List.filter_congr fun i _ => ?_
  rw [Bool.eq_iff_iff, settles_eq_true, settles_eq_true]
  simp only [SettledFor, hr, hf]

theorem atRest_commitNodes (hw : net.WellFormed) (hs : progress.marks.size = net.size) :
    (progress.commitNodes net nodes).AtRest net where
  settling_eq_nil := by
    have hsb : (progress.readBatch nodes).marks.size = net.size := size_readBatch.trans hs
    -- neither releasing guards nor refreshing touches what settling looks at
    rw [← (settles_settle hsb).2]
    exact settling_congr (fun i => by rw [mark_commitNodes hs i])
      fun i => by rw [mark_commitNodes hs i]
  released_of_known i d hd g hg hk :=
    ((commits_commitNodes hw hs).released_iff i).mpr
      (.inr ⟨d, hd, g, hg, hk.imp_right .inl⟩)

/-! ## A commit with nothing to do -/

theorem readBatch_nil : progress.readBatch [] = progress :=
  ext_mark size_readBatch fun i _ => by simp [mark_readBatch]

theorem releaseGuards_of_released (hs : progress.marks.size = net.size)
    (h : ∀ i, progress.Releases net i → (progress.mark i).released = true) :
    progress.releaseGuards net = progress := by
  refine ext_mark size_releaseGuards fun i _ => ?_
  obtain ⟨hmark, hreleased⟩ := mark_releaseGuards hs i
  have hsame : ((progress.releaseGuards net).mark i).released = (progress.mark i).released := by
    rw [Bool.eq_iff_iff, hreleased]
    exact or_iff_left_of_imp (h i)
  rw [hmark, hsame]

/-- Refreshing what is up to date changes nothing. -/
theorem UpToDate.refresh_eq (hw : net.WellFormed) (hu : progress.UpToDate net) :
    progress.refresh net = progress := by
  have hu' := upToDate_refresh hw hu.size_eq
  have hmark (i : Nat) : (progress.refresh net).mark i = _ := mark_refresh hu.size_eq i
  -- both satisfy the same equation along the edges, from the dependants down
  have hasked (i flag : Nat) : flag ∈ ((progress.refresh net).mark i).shouldRead ↔
      flag ∈ (progress.mark i).shouldRead := by
    induction i using hw.induction_dependants with
    | step i ih =>
      have hasks : (progress.refresh net).Asks net i flag ↔ progress.Asks net i flag := by
        refine or_congr_right (exists_congr fun m => exists_congr fun d => and_congr_right fun hd =>
          and_congr_right fun htarget => or_congr (and_congr_right fun _ => ih m d hd htarget) ?_)
        rw [hmark m]
      rw [hu'.mem_shouldRead, hu.mem_shouldRead, hasks, hmark i]
  refine ext_mark size_refresh fun i _ => ?_
  have hsame : (progress.askedTable net).getD i .empty = (progress.mark i).shouldRead := by
    have hset := FlagSet.ext_mem (hasked i)
    rwa [hmark i] at hset
  rw [hmark i, hsame]

/-- Nothing is left to read, to settle or to release. -/
structure Exhausted (net : Net) (progress : Progress) : Prop where
  invariant : progress.Invariant net
  atRest : progress.AtRest net
  batch_eq_nil : progress.batch net = []

theorem Exhausted.commit_eq (hw : net.WellFormed) (h : progress.Exhausted net) :
    progress.commit net = progress := by
  have hu := h.invariant.upToDate
  have hreleased (i : Nat) (hi : progress.Releases net i) : (progress.mark i).released = true := by
    obtain ⟨d, hd, g, hg, hread | hinvalid | ⟨⟨f, hf⟩, -⟩⟩ := hi
    · exact h.atRest.released_of_known i d hd g hg (.inl hread)
    · exact h.atRest.released_of_known i d hd g hg (.inr hinvalid)
    · exact absurd hf (not_mem_shouldRead_of_batch_eq_nil hw h.invariant h.batch_eq_nil)
  rw [commit, h.batch_eq_nil, commitNodes, readBatch_nil,
    settle_of_settling_eq_nil h.atRest.settling_eq_nil,
    releaseGuards_of_released hu.size_eq hreleased, hu.refresh_eq hw]

/-- A run from a state with an empty batch makes no pass. -/
theorem run_of_batch_eq_nil (hb : progress.batch net = []) :
    progress.run net = (progress, .ok ⟨[], net.flags.size, net.limit⟩) := by
  rw [run, runPasses_of_batch_eq_nil hb]
  rfl

end Progress

namespace Scheduler

variable {net : Net} {first scheduler next last : Scheduler}

/-- A commit that leaves nothing to read exhausts the net. -/
theorem exhausted_of_mark? (hw : net.WellFormed) (h : scheduler.progress.Invariant net)
    (hmark : scheduler.mark? net = .ok (next, false)) : next.progress.Exhausted net := by
  obtain ⟨hnext, hmore⟩ := eq_commit_of_mark? h.upToDate hmark
  refine ⟨?_, ?_, by simpa using hmore.symm⟩
  · rw [hnext]
    exact h.commits hw (Progress.commits_commit hw h.upToDate)
  · rw [hnext]
    exact Progress.atRest_commitNodes hw h.upToDate.size_eq

/-- A commit in an exhausted state succeeds, changes nothing, and leaves nothing to read. -/
theorem mark?_of_exhausted (hw : net.WellFormed) (h : scheduler.progress.Exhausted net) :
    scheduler.mark? net =
      .ok (⟨scheduler.progress, .exhausted, scheduler.committed + 1⟩, false) := by
  unfold mark?
  rw [Progress.mark?_eq_ok h.invariant.upToDate, h.commit_eq hw, h.batch_eq_nil]
  rfl

/-- From every state on, some commit leaves nothing to read: each of the others releases a guard. -/
theorem exists_mark?_false (hw : net.WellFormed) (h : scheduler.progress.Invariant net) :
    ∃ last exhausted, Reaches net scheduler last ∧ last.mark? net = .ok (exhausted, false) := by
  induction hn : (scheduler.progress.unreleased net).length using Nat.strongRecOn
      generalizing scheduler with
  | ind n ih =>
    subst hn
    have hu := h.upToDate
    obtain ⟨next, more, hmark⟩ := exists_mark? hu
    cases more with
    | false => exact ⟨scheduler, next, .refl, hmark⟩
    | true =>
      obtain ⟨hnext, hmore⟩ := eq_commit_of_mark? hu hmark
      have hb : (scheduler.progress.commit net).batch net ≠ [] := by
        rw [← hnext]
        simpa using hmore
      have hlt := Progress.length_unreleased_commit_lt hw h hb
      rw [← hnext] at hlt
      have hreach : Reaches net scheduler next := .mark .refl hmark
      obtain ⟨last, exhausted, hrest, hend⟩ := ih _ hlt (hreach.invariant hw h) rfl
      exact ⟨last, exhausted, hreach.trans hrest, hend⟩

/-- No number of commits leaves an exhausted state. -/
theorem Reaches.progress_eq (hw : net.WellFormed) (hr : Reaches net first last)
    (h : first.progress.Exhausted net) : last.progress = first.progress := by
  induction hr with
  | refl => rfl
  | mark _ hmark ih =>
    rw [← ih] at h
    rw [mark?_of_exhausted hw h] at hmark
    obtain ⟨rfl, -⟩ := Prod.mk.inj (Except.ok.inj hmark)
    exact ih

end Scheduler
end BindingPlan
