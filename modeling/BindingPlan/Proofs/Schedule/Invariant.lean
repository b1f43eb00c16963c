import BindingPlan.Proofs.Schedule.Batch
import BindingPlan.Proofs.Schedule.Commit

/-!
# What holds between passes

The invariant of reading a net pass by pass. A node is read only behind released guards and after
its targets; a node that is read for good has nothing left but requirements of conditionals whose
own needs it was read for; a guard with a known predicate is released; and only such a guard is,
where a predicate that was never read counts as known only to conditionals that nothing can need.

Main results:

* `Progress.invariant_start`: the invariant holds before the first pass.
* `Progress.Invariant.commits`: committing a batch keeps it.
* `Progress.Invariant.mem_batch_of_wasRead`: a node that was read before is never held back.
-/

namespace BindingPlan
namespace Progress

variable {net : Net} {progress next : Progress} {i flag : Nat} {d : Dependency}

structure Invariant (net : Net) (progress : Progress) : Prop where
  upToDate : progress.UpToDate net
  /-- Nodes are read only for flags that they may be needed for. -/
  mem_conditionalRead : ∀ i, ∀ f ∈ (progress.mark i).readSoFar, f ∈ (net.node i).conditionalRead
  /-- A node that is read for good has only requirements left, and was read for all that their
  conditionals may be needed for. -/
  settled : ∀ i, (progress.mark i).isRead = true → ∀ f ∈ (net.node i).conditionalRead,
    f ∉ (progress.mark i).readSoFar → ∃ c b, net.flags.requirement? f = some (c, b) ∧
      ∀ f' ∈ (net.node c).conditionalRead, f' ∈ (progress.mark i).readSoFar
  /-- Nodes are read only behind released guards. -/
  released_of_wasRead : ∀ i, progress.WasRead i → ∀ d ∈ (net.node i).dependencies,
    d.guard.isSome = true → (progress.mark i).released = true
  /-- Nodes are read only after their targets, or with them. -/
  wasRead_target : ∀ i, progress.WasRead i → ∀ d ∈ (net.node i).dependencies,
    progress.WasRead d.target
  /-- Nodes are read for the requirements of released conditionals only. -/
  released_of_requirement : ∀ i, ∀ f ∈ (progress.mark i).readSoFar, ∀ c b,
    net.flags.requirement? f = some (c, b) → (progress.mark c).released = true
  /-- A released conditional that nothing can need is read for good. -/
  isRead_of_released : ∀ c, (progress.mark c).released = true →
    (∀ f, f ∉ (net.node c).conditionalRead) → (progress.mark c).isRead = true
  /-- A guard is released when its predicate is read for good, or was read for all that the
  conditional is asked for. -/
  released_of_known : ∀ i, ∀ d ∈ (net.node i).dependencies, ∀ g, d.guard = some g →
    ((progress.mark g.predicate).isRead = true ∨
      ((∃ f, f ∈ (progress.mark i).shouldRead) ∧
        ∀ f ∈ (progress.mark i).shouldRead, f ∈ (progress.mark g.predicate).readSoFar)) →
    (progress.mark i).released = true
  /-- The predicate of a released conditional was read, unless the conditional is read for good. -/
  predicate_of_released : ∀ c, (progress.mark c).released = true →
    (progress.mark c).isRead = true ∨
      ∃ p, (net.node c).predicate = some p ∧ progress.WasRead p

theorem invariant_start (hw : net.WellFormed) : (start net).Invariant net := by
  have hmark := mark_start net
  have hread : ∀ i, ¬(start net).WasRead i := by
    rintro i ⟨f, hf⟩
    rw [hmark i] at hf
    exact absurd hf (FlagSet.not_mem_empty f)
  have hisRead : ∀ i, ((start net).mark i).isRead = false := by
    intro i
    rw [hmark i]
    rfl
  have hreleased : ∀ i, ((start net).mark i).released = false := by
    intro i
    rw [hmark i]
    rfl
  exact
    { upToDate := upToDate_refresh hw (by simp [blank])
      mem_conditionalRead := fun i f hf => absurd ⟨f, hf⟩ (hread i)
      settled := fun i hi => absurd hi (by simp [hisRead i])
      released_of_wasRead := fun i hi => absurd hi (hread i)
      wasRead_target := fun i hi => absurd hi (hread i)
      released_of_requirement := fun i f hf => absurd ⟨f, hf⟩ (hread i)
      isRead_of_released := fun c hc => absurd hc (by simp [hreleased c])
      released_of_known := by
        rintro i d - g - (hp | ⟨⟨f, hf⟩, hsub⟩)
        · exact absurd hp (by simp [hisRead g.predicate])
        · exact absurd ⟨f, hsub f hf⟩ (hread g.predicate)
      predicate_of_released := fun c hc => absurd hc (by simp [hreleased c]) }

namespace Invariant

variable (hw : net.WellFormed) (h : progress.Invariant net)
include h

/-- A released conditional that is not read for good may be needed for something. -/
theorem exists_conditionalRead_of_released {c : Nat} (hrel : (progress.mark c).released = true)
    (hunread : (progress.mark c).isRead = false) : ∃ f, f ∈ (net.node c).conditionalRead := by
  by_contra hnone
  have := h.isRead_of_released c hrel (by simpa using hnone)
  rw [hunread] at this
  exact absurd this (by decide)

include hw

/-! ## Before the commit -/

/-- A target that is read for good, without the flag that a node is asked for, was read for all that
the conditional behind the flag may be needed for, which is something. -/
theorem requirement_of_isRead (hd : d ∈ (net.node i).dependencies) (hg : d.guard = none)
    (ht : (progress.mark d.target).isRead = true) (hf : flag ∈ (progress.mark i).shouldRead)
    (hnot : flag ∉ (progress.mark d.target).readSoFar) :
    ∃ c b, net.flags.requirement? flag = some (c, b) ∧
      (∃ f, f ∈ (net.node c).conditionalRead) ∧
      ∀ f ∈ (net.node c).conditionalRead, f ∈ (progress.mark d.target).readSoFar := by
  have hmem := hw.conditionalRead_of_plain hd hg (h.upToDate.mem_conditionalRead hf)
  obtain ⟨c, b, hreq, hsub⟩ := h.settled d.target ht flag hmem hnot
  refine ⟨c, b, hreq, ?_, hsub⟩
  obtain ⟨hrel, hunread⟩ := h.upToDate.released_of_requirement hw hf hreq
  exact h.exists_conditionalRead_of_released hrel hunread

/-- A target behind a guard that is read for good was read for the requirement of its branch, or for
all that the conditional may be needed for. -/
theorem guard_of_isRead (hd : d ∈ (net.node i).dependencies) {g : Guard} (hg : d.guard = some g)
    (ht : (progress.mark d.target).isRead = true)
    (hr : (net.node i).requirementFlag? g.branch = some flag) :
    flag ∈ (progress.mark d.target).readSoFar ∨
      ∀ f ∈ (net.node i).conditionalRead, f ∈ (progress.mark d.target).readSoFar := by
  by_cases hread : flag ∈ (progress.mark d.target).readSoFar
  · exact .inl hread
  · obtain ⟨c, b, hreq, hsub⟩ :=
      h.settled d.target ht flag (hw.conditionalRead_of_guard hd hg hr) hread
    rw [(hw.requirement_iff flag i g.branch).mpr hr] at hreq
    obtain ⟨rfl, -⟩ := Prod.mk.inj (Option.some.inj hreq)
    exact .inr hsub

/-- What is read for good was read, if a node with flags to read needs it. -/
theorem wasRead_of_isRead (hd : d ∈ (net.node i).dependencies)
    (ht : (progress.mark d.target).isRead = true) (hf : flag ∈ (progress.mark i).shouldRead) :
    progress.WasRead d.target := by
  cases hg : d.guard with
  | none =>
    by_cases hread : flag ∈ (progress.mark d.target).readSoFar
    · exact ⟨flag, hread⟩
    · obtain ⟨c, b, -, ⟨f, hc⟩, hsub⟩ := h.requirement_of_isRead hw hd hg ht hf hread
      exact ⟨f, hsub f hc⟩
  | some g =>
    obtain ⟨r, hr⟩ := hw.guard_requirement i d hd g hg
    rcases h.guard_of_isRead hw hd hg ht hr with hread | hsub
    · exact ⟨r, hread⟩
    · exact ⟨flag, hsub flag (h.upToDate.mem_conditionalRead hf)⟩

/-- A target that is neither read for good nor asked for covers the nodes that need it, once the
guard on it is released. -/
theorem covers_of_not_asked (hd : d ∈ (net.node i).dependencies)
    (hi : (progress.mark i).isRead = false) (ht : (progress.mark d.target).isRead = false)
    (hnone : ∀ f, f ∉ (progress.mark d.target).shouldRead)
    (hr : d.guard.isSome = true → (progress.mark i).released = true) :
    progress.Covers net i d := by
  refine ⟨hnone, ?_⟩
  cases hg : d.guard with
  | none =>
    intro f hf
    exact (h.upToDate.flag_of_plain hw hd hg ht hf).resolve_left (hnone f)
  | some g =>
    obtain ⟨r, hreq⟩ := hw.guard_requirement i d hd g hg
    have hrel := hr (by simp [hg])
    exact ⟨r, hreq, (h.upToDate.flag_of_guard hw hd hg hrel hi ht hreq).resolve_left (hnone r)⟩

/-- A node that was read before and has flags to read is in the batch. -/
theorem mem_batch_of_wasRead (hi : progress.WasRead i)
    (hf : ∃ f, f ∈ (progress.mark i).shouldRead) : i ∈ progress.batch net := by
  -- its targets were read as well, so each of them is done, in the batch, or covers the node
  induction i using hw.induction_targets with
  | step i ih =>
    refine (mem_batch hw h.upToDate).mpr ⟨hf, fun d hd => ?_⟩
    have hrel := h.released_of_wasRead i hi d hd
    refine ⟨hrel, ?_⟩
    cases ht : (progress.mark d.target).isRead with
    | true => exact .inl rfl
    | false =>
      by_cases hasked : ∃ f, f ∈ (progress.mark d.target).shouldRead
      · exact .inr (.inl (ih d hd (h.wasRead_target i hi d hd) hasked))
      · obtain ⟨f, hf⟩ := hf
        refine .inr (.inr (h.covers_of_not_asked hw hd (h.upToDate.not_isRead hf) ht ?_ hrel))
        simpa using hasked

/-! ## After the commit -/

variable (hc : Commits net progress (progress.batch net) next)
include hc

omit hw in
theorem mem_conditionalRead_next (hf : flag ∈ (next.mark i).readSoFar) :
    flag ∈ (net.node i).conditionalRead := by
  rcases (hc.mem_readSoFar i flag).mp hf with hold | ⟨-, hnew⟩
  · exact h.mem_conditionalRead i flag hold
  · exact h.upToDate.mem_conditionalRead hnew

omit hw in
theorem settled_next (hi : (next.mark i).isRead = true) (hf : flag ∈ (net.node i).conditionalRead)
    (hnot : flag ∉ (next.mark i).readSoFar) :
    ∃ c b, net.flags.requirement? flag = some (c, b) ∧
      ∀ f ∈ (net.node c).conditionalRead, f ∈ (next.mark i).readSoFar := by
  rcases (hc.isRead_iff i).mp hi with hold | ⟨-, hleft⟩
  · obtain ⟨c, b, hreq, hsub⟩ := h.settled i hold flag hf fun hr => hnot (hc.readSoFar_mono hr)
    exact ⟨c, b, hreq, fun f hmem => hc.readSoFar_mono (hsub f hmem)⟩
  · obtain ⟨c, b, -, hreq, -, -, hsub⟩ := hleft flag hf hnot
    exact ⟨c, b, hreq, hsub⟩

theorem released_of_wasRead_next (hi : next.WasRead i) (hd : d ∈ (net.node i).dependencies)
    (hg : d.guard.isSome = true) : (next.mark i).released = true := by
  refine (hc.released_iff i).mpr (.inl ?_)
  rcases hc.wasRead_or_mem hi with hold | hbatch
  · exact h.released_of_wasRead i hold d hd hg
  · exact (((mem_batch hw h.upToDate).mp hbatch).2 d hd).1 hg

theorem wasRead_target_next (hi : next.WasRead i) (hd : d ∈ (net.node i).dependencies) :
    next.WasRead d.target := by
  rcases hc.wasRead_or_mem hi with hold | hbatch
  · exact hc.wasRead_mono (h.wasRead_target i hold d hd)
  obtain ⟨⟨f, hf⟩, hdeps⟩ := (mem_batch hw h.upToDate).mp hbatch
  rcases (hdeps d hd).2 with hdone | htarget | hcover
  · exact hc.wasRead_mono (h.wasRead_of_isRead hw hd hdone hf)
  · obtain ⟨⟨f', hf'⟩, -⟩ := (mem_batch hw h.upToDate).mp htarget
    exact ⟨f', hc.readSoFar_of_mem htarget hf'⟩
  · exact hc.wasRead_mono (hcover.wasRead ⟨f, hf⟩)

theorem released_of_requirement_next (hf : flag ∈ (next.mark i).readSoFar) {c : Nat} {b : Bool}
    (hreq : net.flags.requirement? flag = some (c, b)) : (progress.mark c).released = true := by
  rcases (hc.mem_readSoFar i flag).mp hf with hold | ⟨-, hnew⟩
  · exact h.released_of_requirement i flag hold c b hreq
  · exact (h.upToDate.released_of_requirement hw hnew hreq).1

theorem isRead_of_released_next (hr : (next.mark i).released = true)
    (hnone : ∀ f, f ∉ (net.node i).conditionalRead) : (next.mark i).isRead = true := by
  rcases (hc.released_iff i).mp hr with hold | ⟨d, hd, -⟩
  · exact (hc.isRead_iff i).mpr (.inl (h.isRead_of_released i hold hnone))
  · refine (hc.isRead_iff i).mpr (.inr ⟨hw.dynamic_of_dependency i d hd, fun f hf => ?_⟩)
    exact absurd hf (hnone f)

/-- A flag becomes asked for only as the requirement of a conditional that is released now. -/
theorem shouldRead_of_next
    (hrel : ∀ c, ∀ d ∈ (net.node c).dependencies, ∀ g, d.guard = some g →
      (net.node c).requirementFlag? g.branch = some flag → (next.mark c).released = true →
        (progress.mark c).released = true)
    (hf : flag ∈ (next.mark i).shouldRead) : flag ∈ (progress.mark i).shouldRead := by
  induction i using hw.induction_dependants with
  | step i ih =>
    obtain ⟨hdyn, hunread, hmem, hnot, hask⟩ := (hc.upToDate.mem_shouldRead i flag).mp hf
    refine (h.upToDate.mem_shouldRead i flag).mpr ⟨hdyn, hc.isRead_of_next hunread, hmem, ?_, ?_⟩
    · exact fun hold => hnot (hc.readSoFar_mono hold)
    · refine hask.imp_right ?_
      rintro ⟨m, d, hd, htarget, ⟨hg, hm⟩ | ⟨g, hg, hr, hm, hflag⟩⟩
      · exact ⟨m, d, hd, htarget, .inl ⟨hg, ih m d hd htarget hm⟩⟩
      · have hold := hrel m d hd g hg hflag hr
        exact ⟨m, d, hd, htarget, .inr ⟨g, hg, hold, hc.isRead_of_next hm, hflag⟩⟩

theorem released_of_known_next {g : Guard} (hd : d ∈ (net.node i).dependencies)
    (hg : d.guard = some g)
    (hk : (next.mark g.predicate).isRead = true ∨
      ((∃ f, f ∈ (next.mark i).shouldRead) ∧
        ∀ f ∈ (next.mark i).shouldRead, f ∈ (next.mark g.predicate).readSoFar)) :
    (next.mark i).released = true := by
  by_contra hnot
  have hrule := fun hold => hnot ((hc.released_iff i).mpr (.inr ⟨d, hd, g, hg, hold⟩))
  rcases hk with hp | ⟨⟨f, hf⟩, hsub⟩
  · exact hrule (.inl hp)
  -- the conditional was asked for something before the pass, which its predicate does not cover
  have hold : f ∈ (progress.mark i).shouldRead :=
    h.shouldRead_of_next hw hc (fun c _ _ g _ hreq _ =>
      h.released_of_requirement_next hw hc (hsub f hf)
        ((hw.requirement_iff f c g.branch).mpr hreq)) hf
  obtain ⟨f', hf', hleft⟩ : ∃ f' ∈ (progress.mark i).shouldRead,
      f' ∉ (next.mark g.predicate).readSoFar := by
    by_contra hall
    refine hrule (.inr (.inr ⟨⟨f, hold⟩, fun f' hf' => ?_⟩))
    by_contra hleft
    exact hall ⟨f', hf', hleft⟩
  -- so the predicate is asked for it, and is in the batch because it was read before
  obtain ⟨-, p, hp, htarget, hplain⟩ := hw.guard_predicate i d hd g hg
  rw [← htarget] at hsub hleft hrule
  have hunread : (progress.mark p.target).isRead = false :=
    hc.isRead_of_next (by simpa using fun hread => hrule (.inl hread))
  have hasked : f' ∈ (progress.mark p.target).shouldRead :=
    (h.upToDate.flag_of_plain hw hp hplain hunread hf').resolve_right
      fun hread => hleft (hc.readSoFar_mono hread)
  have hbatch : p.target ∈ progress.batch net := by
    rcases hc.wasRead_or_mem ⟨f, hsub f hf⟩ with hread | hbatch
    · exact h.mem_batch_of_wasRead hw hread ⟨f', hasked⟩
    · exact hbatch
  exact hleft (hc.readSoFar_of_mem hbatch hasked)

theorem predicate_of_released_next (hr : (next.mark i).released = true) :
    (next.mark i).isRead = true ∨ ∃ p, (net.node i).predicate = some p ∧ next.WasRead p := by
  have hold : (progress.mark i).released = true →
      (next.mark i).isRead = true ∨ ∃ p, (net.node i).predicate = some p ∧ next.WasRead p := by
    intro hr
    rcases h.predicate_of_released i hr with hread | ⟨p, hp, hread⟩
    · exact .inl ((hc.isRead_iff i).mpr (.inl hread))
    · exact .inr ⟨p, hp, hc.wasRead_mono hread⟩
  rcases (hc.released_iff i).mp hr with hbefore | ⟨d, hd, g, hg, hknown⟩
  · exact hold hbefore
  obtain ⟨hpred, p, hp, htarget, -⟩ := hw.guard_predicate i d hd g hg
  rcases hknown with hdone | hinvalid | ⟨⟨f, hf⟩, hasked⟩
  · cases hpread : (progress.mark g.predicate).isRead with
    | true => exact hold (h.released_of_known i d hd g hg (.inl hpread))
    | false =>
      by_cases hwas : next.WasRead g.predicate
      · exact .inr ⟨_, hpred, hwas⟩
      · exact .inl (hc.isRead_of_predicate hw hd hg hpread hdone hwas)
  · have hsize := hw.target_lt_size hp
    rw [htarget] at hsize
    have hall := (hw.mem_invalid g.predicate hsize net.allFlag).mpr (.inl rfl)
    exact .inr ⟨_, hpred, _, hinvalid _ hall⟩
  · exact .inr ⟨_, hpred, f, hasked f hf⟩

/-- Committing a batch keeps the invariant. -/
theorem commits : next.Invariant net where
  upToDate := hc.upToDate
  mem_conditionalRead _ _ hf := h.mem_conditionalRead_next hc hf
  settled _ hi _ hf hnot := h.settled_next hc hi hf hnot
  released_of_wasRead _ hi _ hd hg := h.released_of_wasRead_next hw hc hi hd hg
  wasRead_target _ hi _ hd := h.wasRead_target_next hw hc hi hd
  released_of_requirement _ _ hf _ _ hreq :=
    (hc.released_iff _).mpr (.inl (h.released_of_requirement_next hw hc hf hreq))
  isRead_of_released _ hr hnone := h.isRead_of_released_next hw hc hr hnone
  released_of_known _ _ hd _ hg hk := h.released_of_known_next hw hc hd hg hk
  predicate_of_released _ hr := h.predicate_of_released_next hw hc hr

end Invariant

end Progress
end BindingPlan
