import BindingPlan.Proofs.Graph.Plan
import BindingPlan.Proofs.Plan.Replay
import BindingPlan.Proofs.Schedule.Provided

/-!
# When replays of a plan are sound

A plan covers what every read needs of its targets, flag by flag. A replay that follows the plan is
still not always sound: a node may be read for the requirement of a branch before the predicate is
read again under all flags that the conditional is needed for, so that the requirement becomes dirty
only after the read was passed over. This is the only way in which a replay can fail.

Main results:

* `replay_sound_iff`: a replay is sound exactly if no such read is passed over; all replays are if
  predicates are always read in time; and in any case the bindings that are dirty at the start fire.
* `replay_unsound_overlap`: a plan and a replay of it that is not sound.
-/

namespace BindingPlan

/-- A read of the target lists a requirement that became dirty only behind it, by the end of the
read at the position, and the target has not fired in front of the position. -/
def PassedOver (net : Net) (scenario : Scenario) (reads : List ScheduledRead) (k target : Nat) :
    Prop :=
  target ∉ (Replay.after net scenario (reads.take k)).fired ∧
    ∃ j, ∃ earlier, j < k ∧ reads[j]? = some earlier ∧ earlier.node = target ∧
      ∃ f ∈ earlier.flags, (∃ c b, net.flags.requirement? f = some (c, b)) ∧
        f ∉ (Replay.after net scenario (reads.take j)).dirty ∧
        f ∈ (Replay.after net scenario (reads.take (k + 1))).dirty

/-- When a read fires, no read of a target that it needs was passed over. -/
def NothingPassedOver (net : Net) (scenario : Scenario) (reads : List ScheduledRead) : Prop :=
  ∀ k, (hk : k < reads.length) → (Replay.after net scenario (reads.take k)).fires reads[k] = true →
    ∀ d ∈ (net.node reads[k].node).dependencies, d.Applies scenario.truth →
      ¬PassedOver net scenario reads k d.target

/-- Where a read lists the requirement of a branch, the predicate was read before for all flags
under which the conditional may be needed. -/
def PredicatesInTime (net : Net) (reads : List ScheduledRead) : Prop :=
  ∀ k, (hk : k < reads.length) → ∀ f ∈ reads[k].flags, ∀ c b,
    net.flags.requirement? f = some (c, b) → ∃ p, (net.node c).predicate = some p ∧
      ∀ f' ∈ (net.node c).conditionalRead, f' ∈ readFlags (reads.take k) p

/-- The dynamic roots of bindings whose value is invalid at the start fire. -/
def BindingsFire (net : Net) (scenario : Scenario) (reads : List ScheduledRead) : Prop :=
  ∀ i, (net.node i).isDynamic = true → (net.node i).isBinding = true →
    (∃ f ∈ (net.node i).invalid, f ∈ scenario.dirty) →
    i ∈ (Replay.after net scenario reads).fired

/-! ## Positions in a plan -/

namespace Progress

variable {net : Net} {progress last : Progress} {passes : List Pass}

/-- The reads of a pass are listed layer by layer. -/
theorem pairwise_layer_passOf (layers : List (List Nat)) :
    (progress.passOf layers).reads.Pairwise fun read other => read.layer ≤ other.layer := by
  have hindex : layers.zipIdx.Pairwise fun a b => a.2 < b.2 := by
    rw [← List.pairwise_map, List.zipIdx_map_snd]
    exact List.pairwise_lt_range'
  unfold passOf
  refine List.pairwise_flatMap.mpr ⟨?_, hindex.imp ?_⟩
  · rintro ⟨nodes, layer⟩ -
    exact List.pairwise_map.mpr (List.pairwise_of_forall fun _ _ => Nat.le_refl _)
  · rintro ⟨nodes, layer⟩ ⟨nodes', layer'⟩ hlt read hread other hother
    obtain ⟨i, -, rfl⟩ := List.mem_map.mp hread
    obtain ⟨j, -, rfl⟩ := List.mem_map.mp hother
    exact Nat.le_of_lt hlt

theorem Runs.pairwise_layer (hr : Runs net progress passes last) :
    ∀ pass ∈ passes, pass.reads.Pairwise fun read other => read.layer ≤ other.layer := by
  induction hr with
  | done => exact fun pass hpass => absurd hpass List.not_mem_nil
  | pass _ _ _ ih =>
    intro pass hpass
    rcases List.mem_cons.mp hpass with rfl | hpass
    · exact pairwise_layer_passOf _
    · exact ih pass hpass

end Progress

/-- The reads in front of the layer of a read are listed in front of it. -/
theorem mem_of_readsBefore {passes : List Pass}
    (hsorted : ∀ pass ∈ passes, pass.reads.Pairwise fun read other => read.layer ≤ other.layer)
    {front back : List ScheduledRead} {read : ScheduledRead}
    (h : passes.flatMap Pass.reads = front ++ read :: back) :
    ∃ k pass, passes[k]? = some pass ∧ read ∈ pass.reads ∧
      ∀ earlier ∈ readsBefore passes k read.layer, earlier ∈ front := by
  induction passes generalizing front with
  | nil => simp at h
  | cons pass passes ih =>
    rw [List.flatMap_cons] at h
    -- the read belongs to the first pass, or to the later ones
    obtain ⟨rest, rfl, hrest⟩ | ⟨_ | ⟨read', rest⟩, hreads, hrest⟩ := List.append_eq_append_iff.mp h
    · obtain ⟨k, pass', hk, hmem, hbefore⟩ :=
        ih (fun p hp => hsorted p (List.mem_cons_of_mem _ hp)) hrest
      refine ⟨k + 1, pass', hk, hmem, fun earlier hearlier => ?_⟩
      rw [readsBefore, List.take_succ_cons, List.flatMap_cons, List.append_assoc] at hearlier
      rcases List.mem_append.mp hearlier with hfirst | hlater
      · exact List.mem_append_left _ hfirst
      · exact List.mem_append_right _ (hbefore earlier hlater)
    · obtain ⟨k, pass', hk, hmem, hbefore⟩ :=
        @ih (fun p hp => hsorted p (List.mem_cons_of_mem _ hp)) [] hrest.symm
      refine ⟨k + 1, pass', hk, hmem, fun earlier hearlier => ?_⟩
      rw [readsBefore, List.take_succ_cons, List.flatMap_cons, List.append_assoc] at hearlier
      rcases List.mem_append.mp hearlier with hfirst | hlater
      · rwa [hreads, List.append_nil] at hfirst
      · exact absurd (hbefore earlier hlater) List.not_mem_nil
    · obtain ⟨rfl, -⟩ := List.cons.inj hrest
      refine ⟨0, pass, rfl, by simp [hreads], fun earlier hearlier => ?_⟩
      have hfilter : earlier ∈ pass.reads.filter fun other => other.layer < read.layer := hearlier
      obtain ⟨hmem, hlt⟩ := List.mem_filter.mp hfilter
      have hpair := hsorted pass List.mem_cons_self
      rw [hreads] at hmem hpair
      have hlt : earlier.layer < read.layer := of_decide_eq_true hlt
      rcases List.mem_append.mp hmem with hfront | hback
      · exact hfront
      · rcases List.mem_cons.mp hback with rfl | hback
        · omega
        · have := (List.pairwise_cons.mp (List.pairwise_append.mp hpair).2.1).1 earlier hback
          omega

/-- The read at a position of a plan finds the targets of its node provided for, by the reads that
are listed before. -/
theorem Progress.Runs.provided_at {net : Net} {last : Progress} {passes : List Pass}
    (hw : net.WellFormed) (hr : Runs net (start net) passes last) {k : Nat}
    (hk : k < (passes.flatMap Pass.reads).length) {d : Dependency}
    (hd : d ∈ (net.node (passes.flatMap Pass.reads)[k].node).dependencies) :
    Provided net (passes.flatMap Pass.reads)[k].node (passes.flatMap Pass.reads)[k].flags d
      (readFlags ((passes.flatMap Pass.reads).take k) d.target) := by
  have hsplit : passes.flatMap Pass.reads = (passes.flatMap Pass.reads).take k ++
      (passes.flatMap Pass.reads)[k] :: (passes.flatMap Pass.reads).drop (k + 1) := by
    rw [← List.drop_eq_getElem_cons hk, List.take_append_drop]
  obtain ⟨n, pass, hn, hread, hbefore⟩ := mem_of_readsBefore hr.pairwise_layer hsplit
  refine (hr.provided hw hn hread hd).2.mono fun f hf => ?_
  obtain ⟨earlier, hmem, hnode, hflag⟩ := mem_readFlags.mp hf
  exact mem_readFlags.mpr ⟨earlier, hbefore earlier hmem, hnode, hflag⟩

/-- The reads of a run are for flags that their nodes may be needed for. -/
theorem Progress.Runs.mem_conditionalRead {net : Net} {progress last : Progress}
    {passes : List Pass} (hw : net.WellFormed) (hr : Runs net progress passes last)
    (h : progress.Invariant net) {read : ScheduledRead}
    (hread : read ∈ passes.flatMap Pass.reads) {flag : Nat} (hf : flag ∈ read.flags) :
    flag ∈ (net.node read.node).conditionalRead := by
  obtain ⟨hlast, -⟩ := hr.invariant_last hw h
  refine hlast.mem_conditionalRead read.node flag ((hr.mem_readSoFar hw h read.node flag).mpr ?_)
  exact .inr (mem_readFlags.mpr ⟨read, hread, rfl, hf⟩)

/-! ## One read -/

section Read

variable {net : Net} {scenario : Scenario} {reads : List ScheduledRead} {k : Nat}
  {target flag : Nat}

/-- What is dirty in front of a read is dirty behind it. -/
theorem mem_dirty_take_succ
    (hf : flag ∈ (Replay.after net scenario (reads.take k)).dirty) :
    flag ∈ (Replay.after net scenario (reads.take (k + 1))).dirty := by
  rw [List.take_add_one]
  exact (Replay.grows_after _ _).dirty flag hf

/-- A target that was read for a flag has fired once the flag is dirty, or was passed over. -/
theorem mem_fired_of_readFlags (hw : net.WellFormed)
    (hcovered : flag ∈ readFlags (reads.take k) target)
    (hdirty : flag ∈ (Replay.after net scenario (reads.take (k + 1))).dirty)
    (hpassed : ¬PassedOver net scenario reads k target) :
    target ∈ (Replay.after net scenario (reads.take k)).fired := by
  by_contra hnot
  obtain ⟨earlier, hmem, hnode, hf⟩ := mem_readFlags.mp hcovered
  obtain ⟨j, hj, rfl⟩ := List.getElem_of_mem hmem
  have hjk : j < k ∧ j < reads.length := by
    rw [List.length_take] at hj
    omega
  have htake : (reads.take k).take j = reads.take j := by
    rw [List.take_take, Nat.min_eq_left (by omega)]
  by_cases hthen : flag ∈ (Replay.after net scenario (reads.take j)).dirty
  · -- the earlier read fired
    apply hnot
    rw [← hnode]
    exact Replay.mem_fired_after_of_dirty hj hf (htake.symm ▸ hthen)
  · -- the flag became dirty since, so it stands for a branch
    refine hpassed ⟨hnot, j, _, hjk.1, ?_, hnode, flag, hf, ?_, hthen, hdirty⟩
    · rw [List.getElem_take]
      exact List.getElem?_eq_getElem hjk.2
    · rcases Replay.dirty_or_decided hdirty with hstart | ⟨c, p, -, -, -, hreq⟩
      · exact absurd (Replay.mem_dirty_after_of_start hstart _) hthen
      · exact ⟨c, scenario.truth p, (hw.requirement_iff flag c _).mpr hreq⟩

end Read

/-! ## Predicates in time -/

section InTime

variable {net : Net} {scenario : Scenario} {reads : List ScheduledRead} {replay : Replay} {k : Nat}

/-- Whatever flag of a read, down to the position, is dirty in a state was dirty when the turn of
the read came. -/
def OnTime (net : Net) (scenario : Scenario) (reads : List ScheduledRead) (k : Nat)
    (replay : Replay) : Prop :=
  ∀ j, (hj : j < reads.length) → j ≤ k → ∀ f ∈ reads[j].flags, f ∈ replay.dirty →
    f ∈ (Replay.after net scenario (reads.take j)).dirty

theorem mem_dirty_take {i j flag : Nat} (hij : i ≤ j)
    (hf : flag ∈ (Replay.after net scenario (reads.take i)).dirty) :
    flag ∈ (Replay.after net scenario (reads.take j)).dirty := by
  obtain ⟨n, rfl⟩ := Nat.exists_eq_add_of_le hij
  rw [List.take_add]
  exact (Replay.grows_after _ _).dirty flag hf

/-- Deciding a conditional makes no requirement dirty too late: its predicate was read before for
the flag under which the conditional is needed, and fired then. -/
theorem OnTime.decideBranch (hw : net.WellFormed) (hr : 0 < scenario.rounds)
    (hin : PredicatesInTime net reads) (h : OnTime net scenario reads k replay) (c : Nat) :
    OnTime net scenario reads k (replay.decideBranch net scenario.truth c) := by
  rcases Replay.decideBranch_eq net scenario.truth replay c with
    ⟨p, hp, -, ⟨f', hneed, hdirty⟩, heq⟩ | heq
  · rw [heq]
    intro j hj hjk f hf hnew
    rcases FlagSet.mem_union.mp hnew with hold | hreq
    · exact h j hj hjk f hf hold
    have hreq := Net.mem_requirementSet.mp hreq
    obtain ⟨p', hp', hall⟩ := hin j hj f hf c _ ((hw.requirement_iff f c _).mpr hreq)
    obtain rfl := Option.some.inj (hp.symm.trans hp')
    obtain ⟨earlier, hmem, hnode, hflag⟩ := mem_readFlags.mp (hall f' hneed)
    obtain ⟨i, hi, rfl⟩ := List.getElem_of_mem hmem
    have hij : i < j := by
      rw [List.length_take] at hi
      omega
    rw [List.getElem_take] at hnode hflag
    have hthen := h i (by omega) (by omega) f' hflag hdirty
    have hfires : (Replay.after net scenario (reads.take i)).fires reads[i] = true :=
      FlagSet.meets_eq_true.mpr ⟨f', hflag, hthen⟩
    apply mem_dirty_take hij
    rw [List.take_succ_eq_append_getElem (by omega), Replay.after_concat]
    refine Replay.mem_dirty_step ?_ hr hp (Replay.mem_fired_step.mpr (.inr ⟨hfires, hnode⟩))
      ⟨f', hneed, hthen⟩ hreq
    by_contra hc
    rw [Net.node_of_size_le (by omega)] at hp
    exact absurd hp (by simp [show (default : NetNode).predicate = none from rfl])
  · rw [heq]
    exact h

theorem onTime_after (hw : net.WellFormed) (hr : 0 < scenario.rounds)
    (hin : PredicatesInTime net reads) (hk : k < reads.length) :
    OnTime net scenario reads k (Replay.after net scenario (reads.take (k + 1))) := by
  have hstep : ∀ k, (hk : k < reads.length) →
      OnTime net scenario reads k (Replay.after net scenario (reads.take k)) →
      OnTime net scenario reads k (Replay.after net scenario (reads.take (k + 1))) := by
    intro k hk h
    rw [List.take_succ_eq_append_getElem hk, Replay.after_concat]
    refine Replay.iterate_decideBranches_of (P := OnTime net scenario reads k)
      (fun replay c h => h.decideBranch hw hr hin c) scenario.rounds ?_
    intro j hj hjk f hf hd
    rw [Replay.dirty_fire] at hd
    exact h j hj hjk f hf hd
  induction k with
  | zero =>
    refine hstep 0 hk fun j hj hjk f _ hd => ?_
    obtain rfl : j = 0 := by omega
    exact hd
  | succ k ih =>
    refine hstep (k + 1) hk fun j hj hjk f hf hd => ?_
    rcases Nat.lt_or_ge j (k + 1) with hlt | hge
    · exact ih (by omega) j hj (by omega) f hf hd
    · obtain rfl : j = k + 1 := by omega
      exact hd

/-- If predicates are read in time, no read is passed over. -/
theorem PredicatesInTime.nothingPassedOver (hw : net.WellFormed) (hr : 0 < scenario.rounds)
    (hin : PredicatesInTime net reads) : NothingPassedOver net scenario reads := by
  rintro k hk - d - - ⟨-, j, earlier, hjk, hj, -, f, hf, -, hnot, hdirty⟩
  obtain ⟨hlt, rfl⟩ := List.getElem?_eq_some_iff.mp hj
  exact hnot (onTime_after hw hr hin hk j hlt (by omega) f hf hdirty)

end InTime

/-! ## Replays of a plan -/

section Plan

variable {net : Net} {last : Progress} {passes : List Pass} {scenario : Scenario} {k : Nat}
  (hw : net.WellFormed) (hr : Progress.Runs net (.start net) passes last)
  (hlimit : ∀ f ∈ scenario.dirty, f < net.limit)
  (hk : k < (passes.flatMap Pass.reads).length)
  (hfires : (Replay.after net scenario ((passes.flatMap Pass.reads).take k)).fires
    (passes.flatMap Pass.reads)[k] = true)
  (hpassed : ∀ d ∈ (net.node (passes.flatMap Pass.reads)[k].node).dependencies,
    d.Applies scenario.truth → ¬PassedOver net scenario (passes.flatMap Pass.reads) k d.target)
include hw hr hlimit hk hfires hpassed

/-- An unguarded target has fired before the nodes that need it. -/
theorem fired_of_plain {d : Dependency}
    (hd : d ∈ (net.node (passes.flatMap Pass.reads)[k].node).dependencies) (hg : d.guard = none) :
    d.target ∈ (Replay.after net scenario ((passes.flatMap Pass.reads).take k)).fired := by
  have happlies : d.Applies scenario.truth := fun g h => absurd (hg.symm.trans h) (by simp)
  have hprovided := hr.provided_at hw hk hd
  unfold Provided at hprovided
  rw [hg] at hprovided
  obtain ⟨f, hf, hdirty⟩ := FlagSet.meets_eq_true.mp hfires
  by_cases hcovered : f ∈ readFlags ((passes.flatMap Pass.reads).take k) d.target
  · exact mem_fired_of_readFlags hw hcovered (mem_dirty_take_succ hdirty) (hpassed d hd happlies)
  · -- the flag is a requirement that became dirty because of a flag that the target was read for
    obtain ⟨c, b, hreq, hall⟩ := hprovided f hf hcovered
    rcases Replay.dirty_or_decided hdirty with hstart | ⟨c', p, -, -, ⟨f', hneed, hdirty'⟩, hreq'⟩
    · have := hw.limit_le_of_requirement f c b hreq
      have := hlimit f hstart
      omega
    · rw [(hw.requirement_iff f c' _).mpr hreq'] at hreq
      obtain ⟨rfl, -⟩ := Prod.mk.inj (Option.some.inj hreq)
      exact mem_fired_of_readFlags hw (hall f' hneed) (mem_dirty_take_succ hdirty')
        (hpassed d hd happlies)

/-- A target behind the branch that was taken has fired before the conditional. -/
theorem fired_of_guard (hrounds : 0 < scenario.rounds) {d : Dependency} {g : Guard}
    (hd : d ∈ (net.node (passes.flatMap Pass.reads)[k].node).dependencies) (hg : d.guard = some g)
    (hb : g.branch = scenario.truth g.predicate) :
    d.target ∈ (Replay.after net scenario ((passes.flatMap Pass.reads).take k)).fired := by
  set reads := passes.flatMap Pass.reads with hreads
  have happlies : d.Applies scenario.truth := by
    intro g' hg'
    obtain rfl := Option.some.inj (hg.symm.trans hg')
    exact hb
  obtain ⟨hpred, p, hp, htarget, hplain⟩ := hw.guard_predicate _ d hd g hg
  have hfired := fired_of_plain hw hr hlimit hk hfires hpassed hp hplain
  rw [htarget] at hfired
  have hprovided := hr.provided_at hw hk hd
  unfold Provided at hprovided
  rw [hg] at hprovided
  obtain ⟨f, hf, hdirty⟩ := FlagSet.meets_eq_true.mp hfires
  have hneed : f ∈ (net.node reads[k].node).conditionalRead :=
    hr.mem_conditionalRead hw (Progress.invariant_start hw) (List.getElem_mem hk) hf
  rcases hprovided with ⟨flag, hreq, hcovered⟩ | hall
  · -- the conditional is needed and its predicate has fired, so the branch is decided by the read
    refine mem_fired_of_readFlags hw hcovered ?_ (hpassed d hd happlies)
    rw [List.take_succ_eq_append_getElem hk, Replay.after_concat]
    refine Replay.mem_dirty_step (hw.lt_size_of_dependency hd) hrounds hpred ?_
      ⟨f, hneed, hdirty⟩ ?_
    · exact Replay.grows_step.fired _ hfired
    · rw [← hb]
      exact hreq
  · exact mem_fired_of_readFlags hw (hall f hneed) (mem_dirty_take_succ hdirty)
      (hpassed d hd happlies)

end Plan

/-- A replay in which no read is passed over is sound. -/
theorem Progress.Runs.replaySound_of_nothingPassedOver {net : Net} {last : Progress}
    {passes : List Pass} {scenario : Scenario} (hw : net.WellFormed)
    (hr : Runs net (start net) passes last) (hlimit : ∀ f ∈ scenario.dirty, f < net.limit)
    (hrounds : 0 < scenario.rounds)
    (h : NothingPassedOver net scenario (passes.flatMap Pass.reads)) :
    ReplaySound net scenario (passes.flatMap Pass.reads) := by
  intro k hk hfires d hd happlies
  have hpassed := h k hk hfires
  cases hg : d.guard with
  | none => exact fired_of_plain hw hr hlimit hk hfires hpassed hd hg
  | some g => exact fired_of_guard hw hr hlimit hk hfires hpassed hrounds hd hg (happlies g hg)

/-- A dirty binding is read for the flag that makes it so. -/
theorem Progress.Runs.bindingsFire {net : Net} {last : Progress} {passes : List Pass}
    (hw : net.WellFormed) (hr : Runs net (start net) passes last) (scenario : Scenario) :
    BindingsFire net scenario (passes.flatMap Pass.reads) := by
  rintro i hd hi ⟨f, hf, hdirty⟩
  have hstart := invariant_start hw
  obtain ⟨hlast, hbatch⟩ := hr.invariant_last hw hstart
  have hsofar := mem_readSoFar_of_batch_eq_nil hw hlast hbatch hd hi hf
  have hread := ((hr.mem_readSoFar hw hstart i f).mp hsofar).resolve_left not_mem_readSoFar_start
  obtain ⟨read, hmem, rfl, hflag⟩ := mem_readFlags.mp hread
  obtain ⟨k, hk, rfl⟩ := List.getElem_of_mem hmem
  exact Replay.mem_fired_after_of_dirty hk hflag (Replay.mem_dirty_after_of_start hdirty _)

/-- A replay of the plan of a graph that was just sealed is sound exactly if no read of a needed
target is passed over, which predicates that are read in time rule out. The bindings that are dirty
at the start fire in every replay. -/
theorem replay_sound_iff {graph : Graph} (h : graph.FreshlySealed) :
    ∃ net schedule last, graph.sealed? = some ⟨net, .start net⟩ ∧
      (GraphM.plan).run.run graph = (.ok schedule, last) ∧
      ∀ scenario : Scenario, (∀ f ∈ scenario.dirty, f < net.limit) → 0 < scenario.rounds →
        (ReplaySound net scenario (schedule.passes.flatMap Pass.reads) ↔
          NothingPassedOver net scenario (schedule.passes.flatMap Pass.reads)) ∧
        (PredicatesInTime net (schedule.passes.flatMap Pass.reads) →
          ReplaySound net scenario (schedule.passes.flatMap Pass.reads)) ∧
        BindingsFire net scenario (schedule.passes.flatMap Pass.reads) := by
  obtain ⟨net, passes, last, hw, hsealed, hplan, hruns⟩ := h.exists_run
  refine ⟨net, _, _, hsealed, hplan, fun scenario hlimit hrounds => ?_⟩
  have hsound := hruns.replaySound_of_nothingPassedOver hw hlimit hrounds
  refine ⟨⟨?_, hsound⟩, fun hin => hsound (hin.nothingPassedOver hw hrounds), ?_⟩
  · intro hsound k hk hfires d hd happlies hpassed
    exact hpassed.1 (hsound k hk hfires d hd happlies)
  · exact hruns.bindingsFire hw scenario

theorem replay_sound_iff_overlap :
    (Layout.overlap.sealedGraph .builtin).FreshlySealed ∧
      ∃ net schedule last,
        (Layout.overlap.sealedGraph .builtin).sealed? = some ⟨net, .start net⟩ ∧
        (GraphM.plan).run.run (Layout.overlap.sealedGraph .builtin) = (.ok schedule, last) ∧
        (∀ f ∈ FlagSet.single 2, f < net.limit) ∧ 0 < 1 ∧
        (ReplaySound net ⟨.single 2, fun _ => true, 1⟩ (schedule.passes.flatMap Pass.reads) ↔
          NothingPassedOver net ⟨.single 2, fun _ => true, 1⟩
            (schedule.passes.flatMap Pass.reads)) ∧
        (PredicatesInTime net (schedule.passes.flatMap Pass.reads) →
          ReplaySound net ⟨.single 2, fun _ => true, 1⟩ (schedule.passes.flatMap Pass.reads)) ∧
        BindingsFire net ⟨.single 2, fun _ => true, 1⟩ (schedule.passes.flatMap Pass.reads) := by
  obtain ⟨net, schedule, last, hsealed, hplan, hall⟩ :=
    replay_sound_iff Layout.freshlySealed_overlap
  have hlimit : net.limit = 4 := by
    have h : (Layout.overlap.sealedGraph .builtin).sealed?.map (fun state => state.net.limit) =
        some 4 := by
      decide +kernel
    rw [hsealed] at h
    exact Option.some.inj h
  have hdirty : ∀ f ∈ FlagSet.single 2, f < net.limit := by
    intro f hf
    rw [FlagSet.mem_single.mp hf, hlimit]
    decide
  exact ⟨Layout.freshlySealed_overlap, net, schedule, last, hsealed, hplan, hdirty, by decide,
    hall ⟨.single 2, fun _ => true, 1⟩ hdirty (by decide)⟩

/-- With the outer predicate dirty and all predicates true, the inner conjunction fires though the
operand behind its predicate has not: that operand was read before the predicate fired again. Going
through the conditionals more than once does not help. -/
theorem replay_unsound_overlap :
    (Layout.overlap.sealedGraph .builtin).FreshlySealed ∧
      ∃ net schedule last,
        (Layout.overlap.sealedGraph .builtin).sealed? = some ⟨net, .start net⟩ ∧
        (GraphM.plan).run.run (Layout.overlap.sealedGraph .builtin) = (.ok schedule, last) ∧
        2 < net.limit ∧
        ¬ReplaySound net ⟨.single 2, fun _ => true, 1⟩ (schedule.passes.flatMap Pass.reads) ∧
        ¬ReplaySound net ⟨.single 2, fun _ => true, 5⟩ (schedule.passes.flatMap Pass.reads) := by
  obtain ⟨net, passes, last, -, hsealed, hplan, -⟩ := Layout.freshlySealed_overlap.exists_run
  have h : ((Layout.overlap.sealedGraph .builtin).sealed?.bind fun state =>
      ((GraphM.plan).run.run (Layout.overlap.sealedGraph .builtin)).1.toOption.map fun schedule =>
        decide (2 < state.net.limit ∧
          ¬ReplaySound state.net ⟨.single 2, fun _ => true, 1⟩
            (schedule.passes.flatMap Pass.reads) ∧
          ¬ReplaySound state.net ⟨.single 2, fun _ => true, 5⟩
            (schedule.passes.flatMap Pass.reads))) = some true := by
    decide +kernel
  rw [hsealed, hplan] at h
  exact ⟨Layout.freshlySealed_overlap, net, _, _, hsealed, hplan,
    of_decide_eq_true (Option.some.inj h)⟩

end BindingPlan
