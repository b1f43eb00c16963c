import Mathlib.Data.List.Perm.Basic
import Mathlib.Data.Option.Basic
import BindingPlan.Proofs.Schedule.Run

/-!
# How many passes a run has

A pass reads everything that is not held back, and what is held back stays so until a guard is
released. So every pass but the first one follows a release, and as a conditional is released once,
a run has at most one pass more than there are conditionals with guards.

Main results:

* `Progress.Invariant.exists_released`: a commit that leaves something to read has released a
  conditional.
* `Progress.Runs.length_le`: the bound on the number of passes.
* `Progress.runPasses_eq`: a larger bound on the loop changes nothing.
* `Net.WellFormed.limit_add_guarding_le`: the conditionals with guards have flags of their own.
-/

namespace BindingPlan

/-- Only allocated flags stand for anything. -/
theorem FlagTable.lt_size_of_requirement {table : FlagTable} {flag : Nat} {pair : Nat × Bool}
    (h : table.requirement? flag = some pair) : flag < table.size := by
  by_contra hnot
  have hnone : table.purpose? flag = none := List.getElem?_eq_none (Nat.le_of_not_lt hnot)
  rw [requirement?, hnone] at h
  exact absurd h (by simp)

/-! ## Conditionals with guards -/

namespace Net

/-- The conditionals that own a guarded dependency. -/
def guarding (net : Net) : List Nat :=
  net.ids.filter fun i => (net.node i).dependencies.any fun d => d.guard.isSome

variable {net : Net} {i : Nat}

theorem mem_guarding (hw : net.WellFormed) :
    i ∈ net.guarding ↔ ∃ d ∈ (net.node i).dependencies, d.guard.isSome = true := by
  unfold guarding ids
  rw [List.mem_filter, List.mem_range, List.any_eq_true]
  refine and_iff_right_of_imp ?_
  rintro ⟨d, hd, -⟩
  exact hw.lt_size_of_dependency hd

theorem nodup_guarding : net.guarding.Nodup :=
  List.nodup_range.filter _

/-- Different conditionals have different requirement flags. -/
theorem WellFormed.limit_add_guarding_le (hw : net.WellFormed) :
    net.limit + net.guarding.length ≤ net.flags.size := by
  set owners := (List.range' net.limit (net.flags.size - net.limit)).map fun flag =>
    (net.flags.requirement? flag).map Prod.fst with howners
  have hsub : net.guarding.map some ⊆ owners := by
    intro owner howner
    obtain ⟨i, hi, rfl⟩ := List.mem_map.mp howner
    obtain ⟨d, hd, hsome⟩ := (mem_guarding hw).mp hi
    obtain ⟨g, hg⟩ := Option.isSome_iff_exists.mp hsome
    obtain ⟨flag, hflag⟩ := hw.guard_requirement i d hd g hg
    have hreq := (hw.requirement_iff flag i g.branch).mpr hflag
    have hlimit := hw.limit_le_of_requirement flag i g.branch hreq
    have hsize := FlagTable.lt_size_of_requirement hreq
    refine List.mem_map.mpr ⟨flag, ?_, by rw [hreq]; rfl⟩
    rw [List.mem_range'_1]
    omega
  have hnodup : (net.guarding.map some).Nodup :=
    nodup_guarding.map (Option.some_injective Nat)
  have hlength := (List.subperm_of_subset hnodup hsub).length_le
  rw [howners, List.length_map, List.length_map, List.length_range'] at hlength
  have := hw.limit_le_size
  omega

end Net

namespace Progress

variable {net : Net} {progress next last : Progress} {i flag : Nat}

/-! ## Every further pass follows a release -/

section Release

variable (hw : net.WellFormed) (h : progress.Invariant net)
  (hc : Commits net progress (progress.batch net) next)
  (hsame : ∀ c ∈ net.guarding, (next.mark c).released = true → (progress.mark c).released = true)
include hw h hc hsame

/-- If a commit releases nothing, no node becomes asked for. -/
theorem Invariant.shouldRead_of_same (hf : flag ∈ (next.mark i).shouldRead) :
    flag ∈ (progress.mark i).shouldRead := by
  refine h.shouldRead_of_next hw hc (fun c d hd g hg _ hr => hsame c ?_ hr) hf
  exact (Net.mem_guarding hw).mpr ⟨d, hd, by simp [hg]⟩

omit hsame in
/-- What was asked for, not read in the pass and never read before does not settle in the commit:
what is left for it are requirements that must be read first. -/
theorem Invariant.not_isRead_of_asked (hf : flag ∈ (progress.mark i).shouldRead)
    (hbatch : i ∉ progress.batch net) (hnever : ¬progress.WasRead i) :
    (next.mark i).isRead = false := by
  by_contra hread
  have hread : (next.mark i).isRead = true := by simpa using hread
  have hnone : ∀ f, f ∉ (next.mark i).readSoFar := fun f hf =>
    (hc.wasRead_or_mem ⟨f, hf⟩).elim hnever hbatch
  obtain ⟨c, b, hreq, hsub⟩ :=
    h.settled_next hc hread (h.upToDate.mem_conditionalRead hf) (hnone flag)
  obtain ⟨hrel, hunread⟩ := h.upToDate.released_of_requirement hw hf hreq
  obtain ⟨f, hf⟩ := h.exists_conditionalRead_of_released hrel hunread
  exact hnone f (hsub f hf)

/-- If a commit releases nothing, nothing is left to read. -/
theorem Invariant.not_mem_batch_of_same : i ∉ next.batch net := by
  induction i using hw.induction_targets with
  | step i ih =>
    intro hi
    obtain ⟨⟨flag, hf⟩, hdeps⟩ := (mem_batch hw hc.upToDate).mp hi
    have hasked := h.shouldRead_of_same hw hc hsame hf
    -- the node was not in the batch, so one of its targets held it back
    have hnot : i ∉ progress.batch net := fun hbatch =>
      hc.upToDate.not_mem_readSoFar hf (hc.readSoFar_of_mem hbatch hasked)
    apply hnot
    refine (mem_batch hw h.upToDate).mpr ⟨⟨flag, hasked⟩, fun d hd => ?_⟩
    obtain ⟨hguard, hcase⟩ := hdeps d hd
    have hrel : d.guard.isSome = true → (progress.mark i).released = true := fun hg =>
      hsame i ((Net.mem_guarding hw).mpr ⟨d, hd, hg⟩) (hguard hg)
    refine ⟨hrel, ?_⟩
    by_contra hheld
    obtain ⟨hunread, hbatch, hcover⟩ :
        (progress.mark d.target).isRead = false ∧ d.target ∉ progress.batch net ∧
          ¬progress.Covers net i d := by
      simpa using hheld
    obtain ⟨f, hf⟩ : ∃ f, f ∈ (progress.mark d.target).shouldRead := by
      by_contra hnone
      refine hcover (h.covers_of_not_asked hw hd (h.upToDate.not_isRead hasked) hunread ?_ hrel)
      simpa using hnone
    have hnever : ¬progress.WasRead d.target := fun hwas =>
      hbatch (h.mem_batch_of_wasRead hw hwas ⟨f, hf⟩)
    rcases hcase with hread | hnext | hcover
    · rw [h.not_isRead_of_asked hw hc hf hbatch hnever] at hread
      exact absurd hread (by decide)
    · exact ih d hd hnext
    · exact (hc.wasRead_or_mem (hcover.wasRead ⟨flag, ‹_›⟩)).elim hnever hbatch

omit hsame in
/-- A commit that leaves something to read has released a conditional. -/
theorem Invariant.exists_released (hi : i ∈ next.batch net) :
    ∃ c ∈ net.guarding, (progress.mark c).released = false ∧ (next.mark c).released = true := by
  by_contra hnone
  refine h.not_mem_batch_of_same hw hc (fun c hmem hr => ?_) hi
  by_contra hold
  exact hnone ⟨c, hmem, by simpa using hold, hr⟩

end Release

/-! ## Counting -/

/-- The conditionals whose guards are not released. -/
def unreleased (net : Net) (progress : Progress) : List Nat :=
  net.guarding.filter fun c => !(progress.mark c).released

/-- A commit that leaves something to read leaves fewer guards to release. -/
theorem length_unreleased_commit_lt (hw : net.WellFormed) (h : progress.Invariant net)
    (hb : (progress.commit net).batch net ≠ []) :
    ((progress.commit net).unreleased net).length < (progress.unreleased net).length := by
  have hc := commits_commit hw h.upToDate
  obtain ⟨i, hi⟩ := List.exists_mem_of_ne_nil _ hb
  obtain ⟨c, hmem, hold, hnew⟩ := h.exists_released hw hc hi
  have heq : (progress.commit net).unreleased net =
      (progress.unreleased net).filter fun c => !((progress.commit net).mark c).released := by
    rw [unreleased, unreleased, List.filter_filter]
    apply List.filter_congr
    intro c _
    have hmono : (progress.mark c).released = true →
        ((progress.commit net).mark c).released = true :=
      fun hr => (hc.released_iff c).mpr (.inl hr)
    cases hr : (progress.mark c).released with
    | false => simp
    | true => simp [hmono hr]
  rw [heq]
  refine List.length_filter_lt_length_iff_exists.mpr ⟨c, List.mem_filter.mpr ⟨hmem, ?_⟩, ?_⟩
  · simp [hold]
  · simp [hnew]

theorem Runs.eq_nil {passes : List Pass} (hr : Runs net progress passes last)
    (hb : progress.batch net = []) : passes = [] := by
  cases hr with
  | done => rfl
  | pass hne => exact absurd hb hne

/-- A run has at most one pass more than there are conditionals to release. -/
theorem Runs.length_le {passes : List Pass} (hw : net.WellFormed)
    (hr : Runs net progress passes last) (h : progress.Invariant net) :
    passes.length ≤ 1 + (progress.unreleased net).length := by
  induction hr with
  | done => exact Nat.zero_le _
  | @pass progress last layers passes _ _ hrest ih =>
    have hlength := ih (h.commits hw (commits_commit hw h.upToDate))
    rw [List.length_cons]
    by_cases hb : (progress.commit net).batch net = []
    · rw [hrest.eq_nil hb, List.length_nil]
      omega
    · have := length_unreleased_commit_lt hw h hb
      omega

/-! ## The bound of the loop -/

/-- A round of the loop over a batch that is not empty makes its pass, and ends the loop or goes on
as the commit says. -/
theorem runPasses_succ_eq_ok {bound : Nat} {passes : List Pass} (hb : progress.batch net ≠ []) :
    progress.runPasses net (bound + 1) = (last, .ok passes) ↔
      ∃ layers next rest, progress.layers net (progress.batch net) = .ok layers ∧
        passes = progress.passOf layers :: rest ∧
        ((progress.mark? net = .ok (next, false) ∧ last = next ∧ rest = []) ∨
          (progress.mark? net = .ok (next, true) ∧
            next.runPasses net bound = (last, .ok rest))) := by
  rw [runPasses]
  simp only [List.isEmpty_iff, hb, if_false]
  cases progress.layers net (progress.batch net) with
  | error e => simp
  | ok layers =>
    cases progress.mark? net with
    | error e => simp
    | ok result =>
      obtain ⟨next, _ | _⟩ := result
      · simp
        tauto
      · rcases hrest : next.runPasses net bound with ⟨final, _ | rest⟩
        · simp [hrest, Except.map]
        · simp [hrest, Except.map]
          tauto

/-- With nothing to read, the loop makes no pass under any bound. -/
theorem runPasses_of_batch_eq_nil (hb : progress.batch net = []) (bound : Nat) :
    progress.runPasses net bound = (progress, .ok []) := by
  cases bound with
  | zero => rfl
  | succ bound => simp [runPasses, hb]

/-- A loop that ended because nothing was left to read makes the same passes under every bound that
allows for them. -/
theorem runPasses_eq {bound more : Nat} {passes : List Pass}
    (hrun : progress.runPasses net bound = (last, .ok passes)) (hend : last.batch net = [])
    (hmore : passes.length ≤ more) : progress.runPasses net more = (last, .ok passes) := by
  induction bound generalizing progress passes more with
  | zero =>
    obtain ⟨rfl, hpasses⟩ := Prod.mk.inj hrun
    obtain rfl := Except.ok.inj hpasses
    exact runPasses_of_batch_eq_nil hend more
  | succ bound ih =>
    by_cases hb : progress.batch net = []
    · rw [runPasses_of_batch_eq_nil hb] at hrun ⊢
      exact hrun
    obtain ⟨layers, next, rest, hlayers, rfl, hcase⟩ := (runPasses_succ_eq_ok hb).mp hrun
    obtain ⟨more, rfl⟩ : ∃ n, more = n + 1 := ⟨more - 1, by rw [List.length_cons] at hmore; omega⟩
    rw [List.length_cons] at hmore
    refine (runPasses_succ_eq_ok hb).mpr ⟨layers, next, rest, hlayers, rfl, ?_⟩
    exact hcase.imp_right (And.imp_right fun hrest => ih hrest (by omega))

/-- The passes of a schedule are those that the loop makes. -/
theorem runPasses_of_run {schedule : Schedule}
    (h : progress.run net = (last, .ok schedule)) :
    progress.runPasses net (workload net + 1) = (last, .ok schedule.passes) := by
  unfold run at h
  rcases hloop : progress.runPasses net (workload net + 1) with ⟨final, _ | passes⟩
  · rw [hloop] at h
    cases h
  · rw [hloop] at h
    cases h
    rfl

end Progress
end BindingPlan
