import BindingPlan.Proofs.Schedule.Run

/-!
# What a read finds provided for

Before a node is read, its targets are: in an earlier pass, or in a lower layer of the same pass.
Together these reads cover what the node needs of the target. An unguarded target was read for every
flag of the read, except for requirements of conditionals for whose own needs it was read; a target
behind a guard was read for the requirement of its branch, or for all that the node may be needed
for.

Main results:

* `Progress.Layered.layer_lt`: layers follow the dependencies inside a pass.
* `Progress.Layered.provided`: what the nodes of a layer find provided for.
* `Progress.Runs.provided`: the same for the reads of a run.
-/

namespace BindingPlan

/-- The reads in front of a layer of a pass: those of the earlier passes, and of the pass those in
lower layers. -/
def readsBefore (passes : List Pass) (k layer : Nat) : List ScheduledRead :=
  (passes.take k).flatMap Pass.reads ++
    (passes[k]?.elim [] Pass.reads).filter fun read => read.layer < layer

/-- The target of a dependency was read for enough, by the flags that it was read for, before a node
is read for some flags. -/
def Provided (net : Net) (i : Nat) (flags : FlagSet) (d : Dependency) (covered : FlagSet) : Prop :=
  match d.guard with
  | none => ∀ f ∈ flags, f ∉ covered → ∃ c b, net.flags.requirement? f = some (c, b) ∧
      ∀ f' ∈ (net.node c).conditionalRead, f' ∈ covered
  | some g => (∃ f, (net.node i).requirementFlag? g.branch = some f ∧ f ∈ covered) ∨
      ∀ f ∈ (net.node i).conditionalRead, f ∈ covered

theorem Provided.mono {net : Net} {i : Nat} {flags : FlagSet} {d : Dependency}
    {covered more : FlagSet} (h : Provided net i flags d covered)
    (hsub : ∀ f ∈ covered, f ∈ more) : Provided net i flags d more := by
  unfold Provided at *
  cases hg : d.guard with
  | none =>
    rw [hg] at h
    intro f hf hnot
    obtain ⟨c, b, hreq, hall⟩ := h f hf fun hc => hnot (hsub f hc)
    exact ⟨c, b, hreq, fun f' hf' => hsub f' (hall f' hf')⟩
  | some g =>
    rw [hg] at h
    rcases h with ⟨f, hreq, hf⟩ | hall
    · exact .inl ⟨f, hreq, hsub f hf⟩
    · exact .inr fun f hf => hsub f (hall f hf)

namespace Progress

variable {net : Net} {progress last : Progress} {i flag : Nat} {d : Dependency}

/-! ## Targets of one node -/

section

variable (hw : net.WellFormed) (h : progress.Invariant net)
  (hd : d ∈ (net.node i).dependencies) {covered : FlagSet}
  (hread : ∀ f ∈ (progress.mark d.target).readSoFar, f ∈ covered)
  (hf : flag ∈ (progress.mark i).shouldRead)

include hread hf

/-- Earlier passes have covered the node at the target. -/
theorem Covers.provided (hcover : progress.Covers net i d) :
    (∃ f, f ∈ covered) ∧ Provided net i (progress.mark i).shouldRead d covered := by
  obtain ⟨-, hcase⟩ := hcover
  unfold Provided
  cases hg : d.guard with
  | none =>
    rw [hg] at hcase
    exact ⟨⟨flag, hread flag (hcase flag hf)⟩, fun f hf hnot => absurd (hread f (hcase f hf)) hnot⟩
  | some g =>
    rw [hg] at hcase
    obtain ⟨r, hr, hmem⟩ := hcase
    exact ⟨⟨r, hread r hmem⟩, .inl ⟨r, hr, hread r hmem⟩⟩

include hw h hd

/-- The target is read for good. -/
theorem Invariant.provided_of_isRead (hdone : (progress.mark d.target).isRead = true) :
    (∃ f, f ∈ covered) ∧ Provided net i (progress.mark i).shouldRead d covered := by
  obtain ⟨f', hf'⟩ := h.wasRead_of_isRead hw hd hdone hf
  refine ⟨⟨f', hread f' hf'⟩, ?_⟩
  unfold Provided
  cases hg : d.guard with
  | none =>
    intro f hf hnot
    obtain ⟨c, b, hreq, -, hsub⟩ :=
      h.requirement_of_isRead hw hd hg hdone hf fun hr => hnot (hread f hr)
    exact ⟨c, b, hreq, fun f' hf' => hread f' (hsub f' hf')⟩
  | some g =>
    obtain ⟨r, hr⟩ := hw.guard_requirement i d hd g hg
    rcases h.guard_of_isRead hw hd hg hdone hr with hmem | hsub
    · exact .inl ⟨r, hr, hread r hmem⟩
    · exact .inr fun f hf => hread f (hsub f hf)

/-- The target is read in front of the node, for all that it must be read for. -/
theorem Invariant.provided_of_shouldRead
    (hguard : d.guard.isSome = true → (progress.mark i).released = true)
    (hall : ∀ f ∈ (progress.mark d.target).shouldRead, f ∈ covered) {asked : Nat}
    (hasked : asked ∈ (progress.mark d.target).shouldRead) :
    (∃ f, f ∈ covered) ∧ Provided net i (progress.mark i).shouldRead d covered := by
  have hunread := h.upToDate.not_isRead hf
  have htunread := h.upToDate.not_isRead hasked
  refine ⟨⟨asked, hall asked hasked⟩, ?_⟩
  unfold Provided
  cases hg : d.guard with
  | none =>
    intro f hf hnot
    have hflag := h.upToDate.flag_of_plain hw hd hg htunread hf
    exact absurd (hflag.elim (hall f) (hread f)) hnot
  | some g =>
    obtain ⟨r, hr⟩ := hw.guard_requirement i d hd g hg
    have hrel := hguard (by rw [hg]; rfl)
    have hflag := h.upToDate.flag_of_guard hw hd hg hrel hunread htunread hr
    exact .inl ⟨r, hr, hflag.elim (hall r) (hread r)⟩

end

/-! ## Layers of a pass -/

namespace Layered

variable {layers : List (List Nat)} (hw : net.WellFormed) (h : progress.Invariant net)
  (hl : progress.Layered net [] (progress.batch net) layers)
include hl

theorem mem_batch_of_layer {a : Nat} {layer : List Nat} (hk : layers[a]? = some layer)
    (hi : i ∈ layer) : i ∈ progress.batch net :=
  hl.perm.mem_iff.mp (List.mem_flatten.mpr ⟨layer, List.mem_of_getElem? hk, hi⟩)

theorem shouldRead_of_layer {a : Nat} {layer : List Nat} (hk : layers[a]? = some layer)
    (hi : i ∈ layer) : ∃ f, f ∈ (progress.mark i).shouldRead :=
  (readNow_eq_true.mp (hl.readNow a layer hk i hi)).1

/-- A node stands in one layer only. -/
theorem layer_unique {a b : Nat} {la lb : List Nat} (ha : layers[a]? = some la)
    (hb : layers[b]? = some lb) (hia : i ∈ la) (hib : i ∈ lb) : a = b := by
  have hpair := (List.nodup_flatten.mp (hl.perm.nodup_iff.mpr nodup_batch)).2
  obtain ⟨hla, rfl⟩ := List.getElem?_eq_some_iff.mp ha
  obtain ⟨hlb, rfl⟩ := List.getElem?_eq_some_iff.mp hb
  rcases Nat.lt_trichotomy a b with hlt | heq | hlt
  · exact absurd hib (List.pairwise_iff_getElem.mp hpair a b hla hlb hlt hia)
  · exact heq
  · exact absurd hia (List.pairwise_iff_getElem.mp hpair b a hlb hla hlt hib)

include h in
/-- A target that is read in the same pass stands in a lower layer. -/
theorem layer_lt {a b : Nat} {la lb : List Nat} (ha : layers[a]? = some la) (hi : i ∈ la)
    (hd : d ∈ (net.node i).dependencies) (hb : layers[b]? = some lb) (ht : d.target ∈ lb) :
    b < a := by
  obtain ⟨f, hf⟩ := hl.shouldRead_of_layer hb ht
  rcases (readNow_eq_true.mp (hl.readNow a la ha i hi)).2 d hd with hdone | hlower | ⟨-, hcover⟩
  · rw [h.upToDate.not_isRead hf] at hdone
    exact absurd hdone (by decide)
  · obtain ⟨lc, hlc, htc⟩ := List.mem_flatten.mp hlower
    obtain ⟨c, hc⟩ := List.getElem?_of_mem hlc
    rw [List.getElem?_take] at hc
    split_ifs at hc with hca
    rwa [hl.layer_unique hb hc ht htc]
  · exact absurd hf (hcover.1 f)

include hw h in
/-- A node of a layer finds its targets provided for, by what was read in earlier passes and in
lower layers. -/
theorem provided {a : Nat} {layer : List Nat} (hk : layers[a]? = some layer) (hi : i ∈ layer)
    (hd : d ∈ (net.node i).dependencies) {covered : FlagSet}
    (hread : ∀ f ∈ (progress.mark d.target).readSoFar, f ∈ covered)
    (hlayer : ∀ b lb, b < a → layers[b]? = some lb → d.target ∈ lb →
      ∀ f ∈ (progress.mark d.target).shouldRead, f ∈ covered) :
    (∃ f, f ∈ covered) ∧ Provided net i (progress.mark i).shouldRead d covered := by
  obtain ⟨⟨f, hf⟩, hdeps⟩ := readNow_eq_true.mp (hl.readNow a layer hk i hi)
  rcases hdeps d hd with hdone | hlower | ⟨-, hcover⟩
  · exact h.provided_of_isRead hw hd hread hf hdone
  · obtain ⟨lb, hlb, ht⟩ := List.mem_flatten.mp hlower
    obtain ⟨b, hb⟩ := List.getElem?_of_mem hlb
    rw [List.getElem?_take] at hb
    split_ifs at hb with hba
    obtain ⟨asked, hasked⟩ := hl.shouldRead_of_layer hb ht
    have hguard := (((mem_batch hw h.upToDate).mp (hl.mem_batch_of_layer hk hi)).2 d hd).1
    exact h.provided_of_shouldRead hw hd hread hf hguard (hlayer b lb hba hb ht) hasked
  · exact hcover.provided hread hf

end Layered

/-! ## Reads of a run -/

theorem not_mem_readSoFar_start : flag ∉ ((start net).mark i).readSoFar := by
  rw [mark_start]
  exact FlagSet.not_mem_empty flag

theorem mem_readFlags_readsBefore {passes : List Pass} {k layer : Nat} {pass : Pass}
    (hk : passes[k]? = some pass) :
    flag ∈ readFlags (readsBefore passes k layer) i ↔
      flag ∈ readFlags ((passes.take k).flatMap Pass.reads) i ∨
        ∃ read ∈ pass.reads, read.layer < layer ∧ read.node = i ∧ flag ∈ read.flags := by
  simp only [readsBefore, hk, Option.elim_some, mem_readFlags, List.mem_append, List.mem_filter,
    decide_eq_true_eq, or_and_right, exists_or, and_assoc]

/-- Every read of a run finds the targets of its node provided for, by the reads in front of its
layer. -/
theorem Runs.provided (hw : net.WellFormed) {passes : List Pass}
    (hr : Runs net (start net) passes last) {k : Nat} {pass : Pass} (hk : passes[k]? = some pass)
    {read : ScheduledRead} (hread : read ∈ pass.reads)
    (hd : d ∈ (net.node read.node).dependencies) :
    let covered := readFlags (readsBefore passes k read.layer) d.target
    (∃ f, f ∈ covered) ∧ Provided net read.node read.flags d covered := by
  intro covered
  obtain ⟨middle, layers, hm, hl, rfl, hsofar⟩ := hr.pass_of_getElem? hw (invariant_start hw) hk
  obtain ⟨layer, hlayer, hi, hflags⟩ := mem_reads_passOf.mp hread
  rw [hflags]
  apply hl.provided hw hm hlayer hi hd
  · intro f hf
    refine (mem_readFlags_readsBefore hk).mpr (.inl ?_)
    exact ((hsofar d.target f).mp hf).resolve_left not_mem_readSoFar_start
  · intro b lb hlt hb ht f hf
    refine (mem_readFlags_readsBefore hk).mpr (.inr ?_)
    exact ⟨⟨d.target, _, b⟩, mem_reads_passOf.mpr ⟨lb, hb, ht, rfl⟩, hlt, rfl, hf⟩

end Progress
end BindingPlan
