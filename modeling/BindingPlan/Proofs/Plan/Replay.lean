import Mathlib.Data.List.Induction
import Mathlib.Logic.Function.Iterate
import BindingPlan.Proofs.Net.Flow
import BindingPlan.Schedule.Plan

/-!
# Replaying a plan

What happens when some flags are dirty and the reads of a plan are gone through in order: a read
fires if one of its flags is dirty, and once the predicate of a conditional has fired, the
requirement of the branch that it took becomes dirty, provided that the conditional is needed.

Main definitions:

* `Replay.after`: the dirty flags and the fired nodes behind a list of reads.
* `ReplaySound`: whatever fires finds the targets that it needs fired before.

Main results:

* `Replay.grows_after`: dirty flags and fired nodes only become more, and each new flag has a
  reason.
* `Replay.mem_fired_after`: which nodes have fired.
-/

namespace BindingPlan

/-- The circumstances of a replay. -/
structure Scenario where
  /-- The flags that are dirty before the first read. -/
  dirty : FlagSet
  /-- The value that each predicate has when it fires. -/
  truth : Nat → Bool
  /-- How often the conditionals are gone through after each read. -/
  rounds : Nat

/-- How far a replay has come. -/
structure Replay where
  dirty : FlagSet
  /-- The nodes that have fired, latest first. -/
  fired : List Nat
deriving DecidableEq, Repr

namespace Replay

/-- Makes the requirement of a conditional dirty if its predicate has fired and it is needed. -/
def decideBranch (net : Net) (truth : Nat → Bool) (replay : Replay) (c : Nat) : Replay :=
  match (net.node c).predicate with
  | none => replay
  | some p =>
    if replay.fired.contains p && (net.node c).conditionalRead.meets replay.dirty then
      { replay with dirty := replay.dirty.union ((net.node c).requirementSet (truth p)) }
    else replay

/-- Goes through all conditionals once. -/
def decideBranches (net : Net) (truth : Nat → Bool) (replay : Replay) : Replay :=
  net.ids.foldl (decideBranch net truth) replay

/-- The read has a dirty flag. -/
def fires (replay : Replay) (read : ScheduledRead) : Bool :=
  read.flags.meets replay.dirty

/-- Adds the node of a read to the fired ones, if the read fires. -/
def fire (replay : Replay) (read : ScheduledRead) : Replay :=
  if replay.fires read then { replay with fired := read.node :: replay.fired } else replay

/-- One read, and the branches that are decided by it. -/
def step (net : Net) (scenario : Scenario) (replay : Replay) (read : ScheduledRead) : Replay :=
  (decideBranches net scenario.truth)^[scenario.rounds] (replay.fire read)

/-- The state behind a list of reads. -/
def after (net : Net) (scenario : Scenario) (reads : List ScheduledRead) : Replay :=
  reads.foldl (step net scenario) ⟨scenario.dirty, []⟩

end Replay

/-- The dependency applies: it has no guard, or its predicate takes the branch. -/
def Dependency.Applies (truth : Nat → Bool) (d : Dependency) : Prop :=
  ∀ g, d.guard = some g → g.branch = truth g.predicate

/-- When a read fires, the targets of the dependencies that apply have fired before. -/
def ReplaySound (net : Net) (scenario : Scenario) (reads : List ScheduledRead) : Prop :=
  ∀ k, (hk : k < reads.length) → (Replay.after net scenario (reads.take k)).fires reads[k] = true →
    ∀ d ∈ (net.node reads[k].node).dependencies, d.Applies scenario.truth →
      d.target ∈ (Replay.after net scenario (reads.take k)).fired

instance (truth : Nat → Bool) (d : Dependency) : Decidable (d.Applies truth) :=
  match h : d.guard with
  | none => isTrue fun g hg => absurd (h.symm.trans hg) (by simp)
  | some g =>
    if hb : g.branch = truth g.predicate then
      isTrue fun g' hg => Option.some.inj (h.symm.trans hg) ▸ hb
    else isFalse fun happ => hb (happ g h)

instance (net : Net) (scenario : Scenario) (reads : List ScheduledRead) :
    Decidable (ReplaySound net scenario reads) :=
  inferInstanceAs (Decidable (∀ k, (hk : k < reads.length) → _ → ∀ d ∈ _, _ → _ ∈ _))

namespace Replay

variable {net : Net} {truth : Nat → Bool} {replay next : Replay} {scenario : Scenario}
  {reads : List ScheduledRead} {read : ScheduledRead} {flag c : Nat}

/-! ## Growth -/

/-- The requirement stands for the branch that a fired predicate took, at a conditional that is
needed. -/
def Decided (net : Net) (truth : Nat → Bool) (replay : Replay) (flag : Nat) : Prop :=
  ∃ c p, (net.node c).predicate = some p ∧ p ∈ replay.fired ∧
    (∃ f ∈ (net.node c).conditionalRead, f ∈ replay.dirty) ∧
    (net.node c).requirementFlag? (truth p) = some flag

/-- More flags are dirty and more nodes have fired, and all flags that became dirty are decided. -/
structure Grows (net : Net) (truth : Nat → Bool) (replay next : Replay) : Prop where
  dirty : ∀ f ∈ replay.dirty, f ∈ next.dirty
  fired : ∀ i ∈ replay.fired, i ∈ next.fired
  decided : ∀ f ∈ next.dirty, f ∈ replay.dirty ∨ next.Decided net truth f

namespace Grows

theorem refl (net : Net) (truth : Nat → Bool) (replay : Replay) : Grows net truth replay replay :=
  ⟨fun _ h => h, fun _ h => h, fun _ h => .inl h⟩

theorem decided_mono (h : Grows net truth replay next) (hd : replay.Decided net truth flag) :
    next.Decided net truth flag := by
  obtain ⟨c, p, hp, hfired, ⟨f, hf, hdirty⟩, hreq⟩ := hd
  exact ⟨c, p, hp, h.fired p hfired, ⟨f, hf, h.dirty f hdirty⟩, hreq⟩

theorem trans {middle : Replay} (h : Grows net truth replay middle)
    (h' : Grows net truth middle next) : Grows net truth replay next where
  dirty f hf := h'.dirty f (h.dirty f hf)
  fired i hi := h'.fired i (h.fired i hi)
  decided f hf := by
    rcases h'.decided f hf with hmiddle | hd
    · exact (h.decided f hmiddle).imp_right h'.decided_mono
    · exact .inr hd

end Grows

theorem decideBranch_eq (net : Net) (truth : Nat → Bool) (replay : Replay) (c : Nat) :
    (∃ p, (net.node c).predicate = some p ∧ p ∈ replay.fired ∧
        (∃ f ∈ (net.node c).conditionalRead, f ∈ replay.dirty) ∧
        replay.decideBranch net truth c =
          { replay with dirty := replay.dirty.union ((net.node c).requirementSet (truth p)) }) ∨
      replay.decideBranch net truth c = replay := by
  unfold decideBranch
  cases hp : (net.node c).predicate with
  | none => exact .inr rfl
  | some p =>
    dsimp only
    split_ifs with h
    · obtain ⟨hfired, hmeets⟩ := Bool.and_eq_true_iff.mp h
      exact .inl ⟨p, rfl, List.contains_iff_mem.mp hfired, FlagSet.meets_eq_true.mp hmeets, rfl⟩
    · exact .inr rfl

theorem fired_decideBranch (c : Nat) :
    (replay.decideBranch net truth c).fired = replay.fired := by
  rcases decideBranch_eq net truth replay c with ⟨p, -, -, -, h⟩ | h
  · rw [h]
  · rw [h]

theorem grows_decideBranch (c : Nat) :
    Grows net truth replay (replay.decideBranch net truth c) := by
  rcases decideBranch_eq net truth replay c with
    ⟨p, hp, hfired, ⟨f, hf, hdirty⟩, h⟩ | h
  · rw [h]
    refine ⟨fun f hf => FlagSet.mem_union.mpr (.inl hf), fun _ hi => hi, fun f' hf' => ?_⟩
    rcases FlagSet.mem_union.mp hf' with hold | hnew
    · exact .inl hold
    · exact .inr ⟨c, p, hp, hfired, ⟨f, hf, FlagSet.mem_union.mpr (.inl hdirty)⟩,
        Net.mem_requirementSet.mp hnew⟩
  · rw [h]
    exact Grows.refl net truth replay

/-- What deciding one conditional keeps, going through all of them any number of times keeps. -/
theorem iterate_decideBranches_of {P : Replay → Prop}
    (hstep : ∀ replay c, P replay → P (decideBranch net truth replay c)) (rounds : Nat)
    (h : P replay) : P ((decideBranches net truth)^[rounds] replay) := by
  have hround : ∀ (list : List Nat) (replay : Replay), P replay →
      P (list.foldl (decideBranch net truth) replay) := by
    intro list
    induction list with
    | nil => exact fun _ h => h
    | cons c list ih => exact fun replay h => ih _ (hstep replay c h)
  induction rounds generalizing replay with
  | zero => exact h
  | succ rounds ih =>
    rw [Function.iterate_succ_apply]
    exact ih (hround net.ids replay h)

theorem grows_iterate_decideBranches (rounds : Nat) (replay : Replay) :
    Grows net truth replay ((decideBranches net truth)^[rounds] replay) :=
  iterate_decideBranches_of (P := Grows net truth replay)
    (fun _ c h => h.trans (grows_decideBranch c)) rounds (Grows.refl net truth replay)

theorem fired_iterate_decideBranches (rounds : Nat) (replay : Replay) :
    ((decideBranches net truth)^[rounds] replay).fired = replay.fired :=
  iterate_decideBranches_of (P := fun next => next.fired = replay.fired)
    (fun _ c h => (fired_decideBranch c).trans h) rounds rfl

theorem grows_foldl_decideBranch (list : List Nat) (replay : Replay) :
    Grows net truth replay (list.foldl (decideBranch net truth) replay) := by
  induction list generalizing replay with
  | nil => exact Grows.refl net truth replay
  | cons c list ih => exact (grows_decideBranch c).trans (ih _)

/-- Going through the conditionals decides every one that is needed and whose predicate has
fired. -/
theorem mem_dirty_foldl_decideBranch {list : List Nat} (hc : c ∈ list) {p : Nat}
    (hp : (net.node c).predicate = some p) (hfired : p ∈ replay.fired)
    (hneed : ∃ f ∈ (net.node c).conditionalRead, f ∈ replay.dirty)
    (hreq : (net.node c).requirementFlag? (truth p) = some flag) :
    flag ∈ (list.foldl (decideBranch net truth) replay).dirty := by
  induction list generalizing replay with
  | nil => exact absurd hc List.not_mem_nil
  | cons i list ih =>
    rw [List.foldl_cons]
    rcases List.mem_cons.mp hc with rfl | hc
    · apply (grows_foldl_decideBranch list _).dirty
      unfold decideBranch
      have hmeets := FlagSet.meets_eq_true.mpr hneed
      simp only [hp, List.contains_iff_mem.mpr hfired, hmeets, Bool.and_self, if_true]
      exact FlagSet.mem_union.mpr (.inr (Net.mem_requirementSet.mpr hreq))
    · have hgrows : Grows net truth replay (replay.decideBranch net truth i) := grows_decideBranch i
      obtain ⟨f, hf, hdirty⟩ := hneed
      exact ih hc (hgrows.fired p hfired) ⟨f, hf, hgrows.dirty f hdirty⟩

/-! ## Steps -/

theorem mem_fired_fire {i : Nat} :
    i ∈ (replay.fire read).fired ↔
      i ∈ replay.fired ∨ (replay.fires read = true ∧ read.node = i) := by
  unfold fire
  split_ifs with h
  · simp [h, or_comm, eq_comm]
  · simp [h]

theorem dirty_fire : (replay.fire read).dirty = replay.dirty := by
  unfold fire
  split_ifs <;> rfl

theorem mem_fired_step {i : Nat} :
    i ∈ (replay.step net scenario read).fired ↔
      i ∈ replay.fired ∨ (replay.fires read = true ∧ read.node = i) := by
  unfold step
  rw [fired_iterate_decideBranches, mem_fired_fire]

theorem grows_step : Grows net scenario.truth replay (replay.step net scenario read) := by
  have hfire : Grows net scenario.truth replay (replay.fire read) :=
    ⟨fun f hf => dirty_fire.symm ▸ hf, fun i hi => mem_fired_fire.mpr (.inl hi),
      fun f hf => .inl (dirty_fire ▸ hf)⟩
  exact hfire.trans (grows_iterate_decideBranches _ _)

/-- After a step, the branches of all needed conditionals with a fired predicate are decided. -/
theorem mem_dirty_step (hw : c < net.size) (hr : 0 < scenario.rounds) {p : Nat}
    (hp : (net.node c).predicate = some p) (hfired : p ∈ (replay.step net scenario read).fired)
    (hneed : ∃ f ∈ (net.node c).conditionalRead, f ∈ replay.dirty)
    (hreq : (net.node c).requirementFlag? (scenario.truth p) = some flag) :
    flag ∈ (replay.step net scenario read).dirty := by
  obtain ⟨rounds, hrounds⟩ := Nat.exists_eq_add_of_lt hr
  rw [step, fired_iterate_decideBranches] at hfired
  rw [Nat.zero_add] at hrounds
  unfold step
  rw [hrounds, Function.iterate_succ_apply]
  apply (grows_iterate_decideBranches _ _).dirty
  obtain ⟨f, hf, hdirty⟩ := hneed
  exact mem_dirty_foldl_decideBranch (List.mem_range.mpr hw) hp hfired
    ⟨f, hf, dirty_fire.symm ▸ hdirty⟩ hreq

/-! ## Lists of reads -/

theorem after_append (front back : List ScheduledRead) :
    after net scenario (front ++ back) =
      back.foldl (step net scenario) (after net scenario front) :=
  List.foldl_append

theorem after_concat (front : List ScheduledRead) :
    after net scenario (front ++ [read]) = (after net scenario front).step net scenario read := by
  rw [after_append]
  rfl

theorem grows_foldl_step (reads : List ScheduledRead) (replay : Replay) :
    Grows net scenario.truth replay (reads.foldl (step net scenario) replay) := by
  induction reads generalizing replay with
  | nil => exact Grows.refl net scenario.truth replay
  | cons read reads ih => exact grows_step.trans (ih _)

theorem grows_after (front back : List ScheduledRead) :
    Grows net scenario.truth (after net scenario front) (after net scenario (front ++ back)) := by
  rw [after_append]
  exact grows_foldl_step back _

/-- What is dirty was dirty from the start, or is decided. -/
theorem dirty_or_decided (hf : flag ∈ (after net scenario reads).dirty) :
    flag ∈ scenario.dirty ∨ (after net scenario reads).Decided net scenario.truth flag :=
  (grows_foldl_step reads _).decided flag hf

theorem mem_dirty_after_of_start (hf : flag ∈ scenario.dirty) (reads : List ScheduledRead) :
    flag ∈ (after net scenario reads).dirty :=
  (grows_foldl_step reads _).dirty flag hf

/-- A node has fired if one of its reads did. -/
theorem mem_fired_after {i : Nat} :
    i ∈ (after net scenario reads).fired ↔ ∃ k, ∃ hk : k < reads.length,
      (after net scenario (reads.take k)).fires reads[k] = true ∧ reads[k].node = i := by
  induction reads using List.reverseRecOn with
  | nil => simp [after]
  | append_singleton front read ih =>
    rw [after_concat, mem_fired_step, ih]
    constructor
    · rintro (⟨k, hk, hfires, hnode⟩ | ⟨hfires, hnode⟩)
      · refine ⟨k, by simp; omega, ?_, ?_⟩
        · rwa [List.take_append_of_le_length (by omega), List.getElem_append_left hk]
        · rwa [List.getElem_append_left hk]
      · exact ⟨front.length, by simp, by simpa using hfires, by simpa using hnode⟩
    · rintro ⟨k, hk, hfires, hnode⟩
      by_cases hlt : k < front.length
      · refine .inl ⟨k, hlt, ?_, ?_⟩
        · rwa [List.take_append_of_le_length (by omega), List.getElem_append_left hlt] at hfires
        · rwa [List.getElem_append_left hlt] at hnode
      · obtain rfl : k = front.length := by
          simp at hk
          omega
        exact .inr ⟨by simpa using hfires, by simpa using hnode⟩

/-- A node has fired if a flag of one of its reads was dirty then. -/
theorem mem_fired_after_of_dirty {k : Nat} (hk : k < reads.length) (hf : flag ∈ reads[k].flags)
    (hd : flag ∈ (after net scenario (reads.take k)).dirty) :
    reads[k].node ∈ (after net scenario reads).fired := by
  refine mem_fired_after.mpr ⟨k, hk, ?_, rfl⟩
  exact FlagSet.meets_eq_true.mpr ⟨flag, hf, hd⟩

end Replay

end BindingPlan
