import BindingPlan.Proofs.Graph.Plan
import BindingPlan.Proofs.Net.Needed
import BindingPlan.Proofs.Schedule.Provided

/-!
# Reads that no binding needs

A conditional that no binding needs settles when its predicate is read for good, and its branches
are not read. Where it stands behind a guard of another one, this may come too late: its own
predicate is needed elsewhere and was read for all of its invalid flags, so its guards are released,
while the predicate of the outer conditional has still to be read. Reads of nodes that no binding
needs come from nothing else.

Main results:

* `reads_needed_unless`: in the plan of a graph that was just sealed, a node that no binding needs
  is read only after such a release, for requirements of inner conditionals.
* `unneeded_read_orphanedChoice`: a plan that has such reads.
-/

namespace BindingPlan

/-- By what was read, a conditional that no binding needs is released before it settles: its
predicate is needed elsewhere and was read for all of its invalid flags, while the conditional
stands behind another one whose predicate is left to read, or that stands behind a guard as well. -/
def ReleasedEarly (net : Net) (read : Nat → FlagSet) (c : Nat) : Prop :=
  ¬net.Needed c ∧
    (∃ p, (net.node c).predicate = some p ∧ net.Needed p ∧
      ∀ f ∈ (net.node p).invalid, f ∈ read p) ∧
    ∃ outer b, net.Behind outer b c ∧
      ((∃ q, (net.node outer).predicate = some q ∧
          ∃ f ∈ (net.node q).conditionalRead, f ∉ read q) ∨
        ∃ c' b', net.Behind c' b' outer)

namespace Progress

variable {net : Net} {progress next last : Progress} {i c flag : Nat}

/-- The conditionals that no binding needs ask for nothing: none of their requirements was read, and
those whose guards are released are settled. -/
structure AsksOnlyNeeded (net : Net) (progress : Progress) : Prop where
  needed_of_requirement : ∀ i, ∀ f ∈ (progress.mark i).readSoFar, ∀ c b,
    net.flags.requirement? f = some (c, b) → net.Needed c
  isRead_of_released : ∀ c, ¬net.Needed c → (progress.mark c).released = true →
    (progress.mark c).isRead = true

theorem asksOnlyNeeded_start : (start net).AsksOnlyNeeded net where
  needed_of_requirement i f hf := by
    rw [mark_start] at hf
    exact absurd hf (FlagSet.not_mem_empty f)
  isRead_of_released c _ hc := by
    rw [mark_start] at hc
    exact absurd hc Bool.false_ne_true

/-- A node that no binding needs is asked for requirements of branches that it stands behind, of
inner conditionals that are not settled. -/
theorem Invariant.requirement_of_not_needed (hw : net.WellFormed) (h : progress.Invariant net)
    (hn : ¬net.Needed i) (hf : flag ∈ (progress.mark i).shouldRead) :
    ∃ c b, net.flags.requirement? flag = some (c, b) ∧ net.Behind c b i ∧
      (progress.mark c).released = true ∧ (progress.mark c).isRead = false ∧
      ∃ outer b', net.Behind outer b' c := by
  obtain ⟨c, b, hreq, hbehind⟩ := (hw.mem_conditionalRead_of_not_needed hn
    (h.upToDate.dynamic hf)).mp (h.upToDate.mem_conditionalRead hf)
  obtain ⟨hrel, hunread⟩ := h.upToDate.released_of_requirement hw hf hreq
  obtain ⟨d, hd, -, -, -⟩ := hbehind.exists_guard
  have hc : ¬net.Needed c := fun hc => hn (hbehind.needed hc)
  -- a released conditional without needs is settled
  obtain ⟨f, hf⟩ := h.exists_conditionalRead_of_released hrel hunread
  obtain ⟨outer, b', -, houter⟩ :=
    (hw.mem_conditionalRead_of_not_needed hc (hw.dynamic_of_dependency c d hd)).mp hf
  exact ⟨c, b, hreq, hbehind, hrel, hunread, outer, b', houter⟩

namespace AsksOnlyNeeded

variable (ha : progress.AsksOnlyNeeded net) (hw : net.WellFormed) (h : progress.Invariant net)
include ha hw h

theorem needed_of_asked (hf : flag ∈ (progress.mark i).shouldRead) : net.Needed i := by
  by_contra hn
  obtain ⟨c, b, -, hbehind, hrel, hunread, -⟩ := h.requirement_of_not_needed hw hn hf
  rw [ha.isRead_of_released c (fun hc => hn (hbehind.needed hc)) hrel] at hunread
  exact absurd hunread (by decide)

variable (hc : Commits net progress (progress.batch net) next)
include hc

theorem needed_of_requirement_next (hf : flag ∈ (next.mark i).readSoFar) {b : Bool}
    (hreq : net.flags.requirement? flag = some (c, b)) : net.Needed c := by
  rcases (hc.mem_readSoFar i flag).mp hf with hold | ⟨-, hnew⟩
  · exact ha.needed_of_requirement i flag hold c b hreq
  · obtain ⟨hrel, hunread⟩ := h.upToDate.released_of_requirement hw hnew hreq
    by_contra hn
    rw [ha.isRead_of_released c hn hrel] at hunread
    exact absurd hunread (by decide)

/-- What a conditional that no binding needs may be read for is never read. -/
theorem not_mem_readSoFar_next (hn : ¬net.Needed c) (hdyn : (net.node c).isDynamic = true)
    (hf : flag ∈ (net.node c).conditionalRead) : flag ∉ (next.mark i).readSoFar := by
  intro hread
  obtain ⟨outer, b, hreq, hbehind⟩ := (hw.mem_conditionalRead_of_not_needed hn hdyn).mp hf
  exact hn (hbehind.needed (ha.needed_of_requirement_next hw h hc hread hreq))

/-- A conditional that no binding needs settles with its predicate. -/
theorem isRead_of_predicate_next {d : Dependency} {g : Guard} (hn : ¬net.Needed c)
    (hd : d ∈ (net.node c).dependencies) (hg : d.guard = some g)
    (hp : (next.mark g.predicate).isRead = true) : (next.mark c).isRead = true := by
  have hdyn := hw.dynamic_of_dependency c d hd
  rcases (hc.isRead_iff g.predicate).mp hp with hold | ⟨-, hsettled⟩
  · have hrel := h.released_of_known c d hd g hg (.inl hold)
    exact (hc.isRead_iff c).mpr (.inl (ha.isRead_of_released c hn hrel))
  -- the predicate was read for nothing that the conditional may be read for
  obtain ⟨-, p, hpd, htarget, hplain⟩ := hw.guard_predicate c d hd g hg
  refine (hc.isRead_iff c).mpr (.inr ⟨hdyn, fun f hf _ => ?_⟩)
  have hmem : f ∈ (net.node g.predicate).conditionalRead :=
    htarget ▸ hw.conditionalRead_of_plain hpd hplain hf
  obtain ⟨outer, b, q, hreq, hq, hread, hsub⟩ :=
    hsettled f hmem (ha.not_mem_readSoFar_next hw h hc hn hdyn hf)
  obtain ⟨outer', b', hreq', hbehind⟩ := (hw.mem_conditionalRead_of_not_needed hn hdyn).mp hf
  obtain ⟨rfl, rfl⟩ := Prod.mk.inj (Option.some.inj (hreq'.symm.trans hreq))
  refine ⟨outer', b', q, hreq, hq, hread, fun f' hf' => ?_⟩
  obtain ⟨e, he, -, -, -⟩ := hbehind.exists_guard
  exact absurd (hsub f' hf') (ha.not_mem_readSoFar_next hw h hc
    (fun houter => hn (hbehind.needed houter)) (hw.dynamic_of_dependency outer' e he) hf')

omit ha h in
/-- A conditional that is not settled, though no binding needs it, stands behind another one whose
predicate is left to read, or that stands behind a guard as well. -/
theorem exists_outer_of_not_isRead (hn : ¬net.Needed c) (hdyn : (net.node c).isDynamic = true)
    (hunread : (next.mark c).isRead = false) :
    ∃ outer b, net.Behind outer b c ∧
      ((∃ q, (net.node outer).predicate = some q ∧
          ∃ f ∈ (net.node q).conditionalRead, f ∉ (next.mark q).readSoFar) ∨
        ∃ c' b', net.Behind c' b' outer) := by
  have hnot : ¬(next.mark c).isRead = true := by simp [hunread]
  obtain ⟨f, hf, hleft⟩ : ∃ f ∈ (net.node c).conditionalRead,
      ¬next.SettledFor net f (next.mark c).readSoFar := by
    by_contra hall
    refine hnot ((hc.isRead_iff c).mpr (.inr ⟨hdyn, fun f hf _ => ?_⟩))
    by_contra hleft
    exact hall ⟨f, hf, hleft⟩
  obtain ⟨outer, b, hreq, hbehind⟩ := (hw.mem_conditionalRead_of_not_needed hn hdyn).mp hf
  refine ⟨outer, b, hbehind, ?_⟩
  obtain ⟨d, hd, g, hg, -⟩ := hbehind.exists_guard
  obtain ⟨hq, q, hqd, htarget, -⟩ := hw.guard_predicate outer d hd g hg
  by_contra hneither
  obtain ⟨hqread, houter⟩ := not_or.mp hneither
  have hsettled : (next.mark g.predicate).isRead = true := by
    refine (hc.isRead_iff g.predicate).mpr
      (.inr ⟨htarget ▸ hw.dynamic_target outer q hqd, fun f' hf' hnew => ?_⟩)
    exact absurd ⟨g.predicate, hq, f', hf', hnew⟩ hqread
  refine hleft ⟨outer, b, g.predicate, hreq, hq, hsettled, fun f' hf' => ?_⟩
  obtain ⟨c', b', -, hbehind'⟩ := (hw.mem_conditionalRead_of_not_needed
    (fun hneeded => hn (hbehind.needed hneeded)) (hw.dynamic_of_dependency outer d hd)).mp hf'
  exact absurd ⟨c', b', hbehind'⟩ houter

/-- A conditional that a commit releases without settling it, though no binding needs it, is
released early. -/
theorem releasedEarly_of_released (hn : ¬net.Needed c) (hrel : (next.mark c).released = true)
    (hunread : (next.mark c).isRead = false) :
    ReleasedEarly net (fun i => (next.mark i).readSoFar) c := by
  have hnot : ¬(next.mark c).isRead = true := by simp [hunread]
  rcases (hc.released_iff c).mp hrel with hold | ⟨d, hd, g, hg, hknown⟩
  · exact absurd ((hc.isRead_iff c).mpr (.inl (ha.isRead_of_released c hn hold))) hnot
  have hdyn := hw.dynamic_of_dependency c d hd
  rcases hknown with hread | hinvalid | ⟨⟨f, hf⟩, -⟩
  · exact absurd (ha.isRead_of_predicate_next hw h hc hn hd hg hread) hnot
  · obtain ⟨hpred, p, hpd, htarget, -⟩ := hw.guard_predicate c d hd g hg
    have hpdyn : (net.node g.predicate).isDynamic = true := htarget ▸ hw.dynamic_target c p hpd
    -- the predicate was read for the flag that invalidates everything
    have hall : net.allFlag ∈ (net.node g.predicate).invalid :=
      (hw.mem_invalid g.predicate (Net.lt_size_of_dynamic hpdyn) _).mpr (.inl rfl)
    have hmem : net.allFlag ∈ (net.node g.predicate).conditionalRead :=
      (h.commits hw hc).mem_conditionalRead g.predicate _ (hinvalid _ hall)
    exact ⟨hn, ⟨g.predicate, hpred, hw.needed_of_mem_invalid hpdyn hmem hall, hinvalid⟩,
      exists_outer_of_not_isRead hw hc hn hdyn hunread⟩
  · exact absurd (ha.needed_of_asked hw h hf) hn

/-- A commit releases a conditional early, or the conditionals that no binding needs still ask for
nothing. -/
theorem commits_or_releasedEarly :
    next.AsksOnlyNeeded net ∨ ∃ c, ReleasedEarly net (fun i => (next.mark i).readSoFar) c := by
  by_cases hearly : ∃ c, ReleasedEarly net (fun i => (next.mark i).readSoFar) c
  · exact .inr hearly
  refine .inl ⟨fun i f hf c b hreq => ha.needed_of_requirement_next hw h hc hf hreq, ?_⟩
  intro c hn hrel
  by_contra hunread
  exact hearly ⟨c, ha.releasedEarly_of_released hw h hc hn hrel (by simpa using hunread)⟩

end AsksOnlyNeeded

/-- The passes of a run read nodes that no binding needs only behind a pass that released a
conditional early. -/
theorem Runs.needed_or_releasedEarly (hw : net.WellFormed) {before passes : List Pass}
    (hr : Runs net progress passes last) (h : progress.Invariant net)
    (ha : progress.AsksOnlyNeeded net)
    (hread : ∀ i, (progress.mark i).readSoFar = readFlags (before.flatMap Pass.reads) i)
    {k : Nat} {pass : Pass} (hk : passes[k]? = some pass) :
    (∀ read ∈ pass.reads, net.Needed read.node) ∨
      ∃ j ≤ k, ∃ c, ReleasedEarly net
        (readFlags ((before ++ passes.take j).flatMap Pass.reads)) c := by
  induction hr generalizing before k with
  | done => simp at hk
  | @pass progress last layers passes _ hl _ ih =>
    cases k with
    | zero =>
      obtain rfl := Option.some.inj hk
      refine .inl fun read hmem => ?_
      obtain ⟨layer, hlayer, hi, -⟩ := mem_reads_passOf.mp hmem
      obtain ⟨f, hf⟩ := hl.shouldRead_of_layer hlayer hi
      exact ha.needed_of_asked hw h hf
    | succ k =>
      have hc := commits_commit hw h.upToDate
      have hnext : ∀ i, ((progress.commit net).mark i).readSoFar =
          readFlags ((before ++ [progress.passOf layers]).flatMap Pass.reads) i := by
        intro i
        apply FlagSet.ext_mem
        intro f
        rw [hc.mem_readSoFar, hread, ← hl.mem_readFlags_passOf]
        simp only [mem_readFlags, List.flatMap_append, List.flatMap_cons, List.flatMap_nil,
          List.append_nil, List.mem_append, or_and_right, exists_or]
      rcases ha.commits_or_releasedEarly hw h hc with hnextAsks | ⟨c, hearly⟩
      · refine (ih (h.commits hw hc) hnextAsks hnext hk).imp_right ?_
        rintro ⟨j, hj, c, hearly⟩
        rw [List.append_assoc] at hearly
        exact ⟨j + 1, Nat.succ_le_succ hj, c, hearly⟩
      · simp only [hnext] at hearly
        exact .inr ⟨1, by omega, c, hearly⟩

end Progress

/-- A pass reads a node that no binding needs only for requirements of inner conditionals that it
stands behind, and only if a conditional was released early in front of the pass. -/
def NeededUnlessReleasedEarly (net : Net) (passes : List Pass) : Prop :=
  ∀ (k : Nat) (pass : Pass), passes[k]? = some pass → ∀ read ∈ pass.reads,
    net.Needed read.node ∨
      ((∀ f ∈ read.flags, ∃ c b, net.flags.requirement? f = some (c, b) ∧
          net.Behind c b read.node ∧ ∃ outer b', net.Behind outer b' c) ∧
        ∃ j ≤ k, ∃ c, ReleasedEarly net (readFlags ((passes.take j).flatMap Pass.reads)) c)

theorem Progress.Runs.neededUnlessReleasedEarly {net : Net} {last : Progress} {passes : List Pass}
    (hw : net.WellFormed) (hr : Runs net (start net) passes last) :
    NeededUnlessReleasedEarly net passes := by
  intro k pass hk read hread
  by_cases hn : net.Needed read.node
  · exact .inl hn
  refine .inr ⟨fun f hf => ?_, ?_⟩
  · obtain ⟨middle, layers, hm, -, rfl, -⟩ := hr.pass_of_getElem? hw (invariant_start hw) hk
    obtain ⟨-, -, -, hflags⟩ := mem_reads_passOf.mp hread
    rw [hflags] at hf
    obtain ⟨c, b, hreq, hbehind, -, -, houter⟩ := hm.requirement_of_not_needed hw hn hf
    exact ⟨c, b, hreq, hbehind, houter⟩
  · have hblank : ∀ i, ((start net).mark i).readSoFar =
        readFlags (([] : List Pass).flatMap Pass.reads) i := by
      intro i
      rw [mark_start]
      rfl
    exact (hr.needed_or_releasedEarly hw (invariant_start hw) asksOnlyNeeded_start hblank
      hk).resolve_left fun hall => hn (hall read hread)

/-! ## Plans -/

/-- A static field is accessed through a choice between users, so nothing needs the choice; the
inner predicate is bound itself, and the outer one is part of another binding. -/
def Layout.orphanedChoice : Layout where
  classes := [⟨"User", none, false, false, [⟨"ID", "int", true, true, false⟩], []⟩]
  imports := []
  variableDecls :=
    [⟨"p", "boolean"⟩, ⟨"q", "boolean"⟩, ⟨"r", "boolean"⟩, ⟨"u", "User"⟩, ⟨"v", "User"⟩]
  bindings := ["(p ? (q ? u : v) : u).ID", "q", "r && p"]

/-- The registry with the classes of the layout. -/
def ClassRegistry.users : ClassRegistry :=
  (ClassRegistry.builtin.extend Layout.orphanedChoice.classes).1

theorem Layout.freshlySealed_orphanedChoice :
    (Layout.orphanedChoice.sealedGraph .users).FreshlySealed :=
  freshlySealed_sealedGraph (by decide +kernel)

/-- The plan of a graph that was just sealed reads what a dynamic binding reaches through
dependencies, unless a conditional is released early. -/
theorem reads_needed_unless {graph : Graph} (h : graph.FreshlySealed) :
    ∃ net schedule last, graph.sealed? = some ⟨net, .start net⟩ ∧
      (GraphM.plan).run.run graph = (.ok schedule, last) ∧
      NeededUnlessReleasedEarly net schedule.passes := by
  obtain ⟨net, passes, last, hw, hsealed, hplan, hruns⟩ := h.exists_run
  exact ⟨net, _, _, hsealed, hplan, hruns.neededUnlessReleasedEarly hw⟩

theorem reads_needed_unless_orphanedChoice :
    (Layout.orphanedChoice.sealedGraph .users).FreshlySealed ∧
      ∃ net schedule last,
        (Layout.orphanedChoice.sealedGraph .users).sealed? = some ⟨net, .start net⟩ ∧
        (GraphM.plan).run.run (Layout.orphanedChoice.sealedGraph .users) = (.ok schedule, last) ∧
        NeededUnlessReleasedEarly net schedule.passes :=
  ⟨Layout.freshlySealed_orphanedChoice, reads_needed_unless Layout.freshlySealed_orphanedChoice⟩

/-- Both users are read, though only `p`, `q`, `r` and `r && p` are needed. -/
theorem unneeded_read_orphanedChoice :
    (Layout.orphanedChoice.sealedGraph .users).FreshlySealed ∧
      ∃ net schedule last,
        (Layout.orphanedChoice.sealedGraph .users).sealed? = some ⟨net, .start net⟩ ∧
        (GraphM.plan).run.run (Layout.orphanedChoice.sealedGraph .users) = (.ok schedule, last) ∧
        ∃ pass ∈ schedule.passes, ∃ read ∈ pass.reads, ¬net.Needed read.node := by
  obtain ⟨net, passes, last, -, hsealed, hplan, -⟩ :=
    Layout.freshlySealed_orphanedChoice.exists_run
  have h : ((Layout.orphanedChoice.sealedGraph .users).sealed?.bind fun state =>
      ((GraphM.plan).run.run (Layout.orphanedChoice.sealedGraph .users)).1.toOption.map
        fun schedule => decide (state.net.Closed [0, 1, 2, 9] ∧
          ∃ pass ∈ schedule.passes, ∃ read ∈ pass.reads, read.node ∉ [0, 1, 2, 9])) =
      some true := by
    decide +kernel
  rw [hsealed, hplan] at h
  obtain ⟨hclosed, pass, hpass, read, hread, hnot⟩ := of_decide_eq_true (Option.some.inj h)
  exact ⟨Layout.freshlySealed_orphanedChoice, net, _, _, hsealed, hplan, pass, hpass, read, hread,
    fun hneeded => hnot (hneeded.mem_of_closed hclosed)⟩

end BindingPlan
