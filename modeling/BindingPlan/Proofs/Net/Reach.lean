import Mathlib.Logic.Relation
import BindingPlan.Proofs.Net.WellFormed

/-!
# Flag sets along paths

The two flag sets of a node are each computed in one sweep over the net. Here they are described by
paths: the flags that make a value invalid come up all dependencies, and the flags that it may be
needed for come down those without a guard.

Main results:

* `Net.WellFormed.mem_invalid_iff_reach`: a value is invalid under the flag for everything and under
  the flags of the nodes that it is computed from.
* `Net.WellFormed.mem_conditionalRead_iff_feeds`: a node may be needed for a flag if it feeds a node
  that the flag is a reason to read.
-/

namespace BindingPlan
namespace Net

/-- The value of the first node is computed from that of the second one: dependencies, guarded or
not, lead from the first to the second. -/
def Reach (net : Net) : Nat → Nat → Prop :=
  Relation.ReflTransGen fun i j => ∃ d ∈ (net.node i).dependencies, d.target = j

/-- The second node is one that the first one knows to depend on it, without a guard. -/
def PlainDependant (net : Net) (i m : Nat) : Prop :=
  ∃ edge ∈ (net.node i).dependants, ∃ d, (net.node edge.node).dependencies[edge.edge]? = some d ∧
    edge.node = m ∧ d.guard = none

/-- The second node is not read without the first one: edges without a guard lead up from the first
to the second. -/
def Feeds (net : Net) : Nat → Nat → Prop :=
  Relation.ReflTransGen net.PlainDependant

/-- The flag is a reason to read this very node: it makes the value invalid and the node is the root
of a binding, or it is the requirement of a branch and the node is the value of that branch. -/
def ReadFor (net : Net) (i flag : Nat) : Prop :=
  ((net.node i).isBinding = true ∧ flag ∈ (net.node i).invalid) ∨
    ∃ c branch, (∃ d ∈ (net.node c).dependencies, d.target = i ∧
        ∃ g, d.guard = some g ∧ g.branch = branch) ∧
      (net.node c).requirementFlag? branch = some flag

namespace WellFormed

variable {net : Net} (hw : net.WellFormed) {i m flag : Nat}
include hw

/-! ## Invalid flags -/

theorem lt_size_of_reach (hi : i < net.size) (h : net.Reach i m) : m < net.size := by
  induction h with
  | refl => exact hi
  | tail _ hstep _ =>
    obtain ⟨d, hd, rfl⟩ := hstep
    exact hw.target_lt_size hd

/-- A value is invalid whenever that of a target is. -/
theorem invalid_of_target {d : Dependency} (hd : d ∈ (net.node i).dependencies)
    (hf : flag ∈ (net.node d.target).invalid) : flag ∈ (net.node i).invalid :=
  (hw.mem_invalid i (hw.lt_size_of_dependency hd) flag).mpr (.inr (.inr ⟨d, hd, hf⟩))

theorem invalid_of_reach (h : net.Reach i m) (hf : flag ∈ (net.node m).invalid) :
    flag ∈ (net.node i).invalid := by
  induction h using Relation.ReflTransGen.head_induction_on with
  | refl => exact hf
  | head hstep _ ih =>
    obtain ⟨d, hd, rfl⟩ := hstep
    exact hw.invalid_of_target hd ih

/-- A value is invalid under the flag for everything, under the flags of the nodes that it is
computed from, and under no others. -/
theorem mem_invalid_iff_reach (hi : i < net.size) : flag ∈ (net.node i).invalid ↔
    flag = net.allFlag ∨ ∃ m, net.Reach i m ∧ (net.node m).flag = some flag := by
  constructor
  · intro hf
    -- from the targets up: a flag is that of the node, or came from a target
    induction i using hw.induction_targets with
    | step i ih =>
      rcases (hw.mem_invalid i hi flag).mp hf with hall | hown | ⟨d, hd, hf⟩
      · exact .inl hall
      · exact .inr ⟨i, .refl, hown⟩
      · refine (ih d hd (hw.target_lt_size hd) hf).imp_right ?_
        rintro ⟨m, hreach, hflag⟩
        exact ⟨m, .head ⟨d, hd, rfl⟩ hreach, hflag⟩
  · rintro (hall | ⟨m, hreach, hflag⟩)
    · exact (hw.mem_invalid i hi flag).mpr (.inl hall)
    · have hm := hw.lt_size_of_reach hi hreach
      exact hw.invalid_of_reach hreach ((hw.mem_invalid m hm flag).mpr (.inr (.inl hflag)))

/-! ## Needs -/

theorem plainDependant_iff : net.PlainDependant i m ↔
    ∃ d ∈ (net.node m).dependencies, d.target = i ∧ d.guard = none := by
  have h := exists_dependant (hw.mem_dependants i) (P := fun owner d => owner = m ∧ d.guard = none)
  refine h.trans ⟨?_, ?_⟩
  · rintro ⟨_, d, hd, htarget, rfl, hg⟩
    exact ⟨d, hd, htarget, hg⟩
  · rintro ⟨d, hd, htarget, hg⟩
    exact ⟨m, d, hd, htarget, rfl, hg⟩

theorem lt_size_of_feeds (hi : i < net.size) (h : net.Feeds i m) : m < net.size := by
  induction h with
  | refl => exact hi
  | tail _ hstep _ =>
    obtain ⟨d, hd, -, -⟩ := hw.plainDependant_iff.mp hstep
    exact hw.lt_size_of_dependency hd

/-- A node may be needed for all that the nodes which it feeds may be needed for. -/
theorem conditionalRead_of_feeds (h : net.Feeds i m) (hf : flag ∈ (net.node m).conditionalRead) :
    flag ∈ (net.node i).conditionalRead := by
  induction h using Relation.ReflTransGen.head_induction_on with
  | refl => exact hf
  | head hstep _ ih =>
    obtain ⟨d, hd, rfl, hg⟩ := hw.plainDependant_iff.mp hstep
    exact hw.conditionalRead_of_plain hd hg ih

theorem conditionalRead_of_readFor (hi : i < net.size) (h : net.ReadFor i flag) :
    flag ∈ (net.node i).conditionalRead := by
  rcases h with hroot | ⟨c, branch, ⟨d, hd, rfl, g, hg, rfl⟩, hreq⟩
  · exact (hw.mem_conditionalRead i hi flag).mpr (.inl hroot)
  · exact hw.conditionalRead_of_guard hd hg hreq

/-- A node may be needed for the flags that are a reason to read a node which it feeds, and for no
others. -/
theorem mem_conditionalRead_iff_feeds (hi : i < net.size) : flag ∈ (net.node i).conditionalRead ↔
    ∃ m, net.Feeds i m ∧ net.ReadFor m flag := by
  constructor
  · intro hf
    -- from the dependants down: a flag is a reason to read the node, or came down an edge without
    -- a guard
    induction i using hw.induction_dependants with
    | step i ih =>
      rcases (hw.mem_conditionalRead i hi flag).mp hf with
        hroot | ⟨owner, d, hd, htarget, ⟨hg, hf⟩ | ⟨g, hg, hreq⟩⟩
      · exact ⟨i, .refl, .inl hroot⟩
      · obtain ⟨m, hfeeds, hread⟩ := ih owner d hd htarget (hw.lt_size_of_dependency hd) hf
        exact ⟨m, .head (hw.plainDependant_iff.mpr ⟨d, hd, htarget, hg⟩) hfeeds, hread⟩
      · exact ⟨i, .refl, .inr ⟨owner, g.branch, ⟨d, hd, htarget, g, hg, rfl⟩, hreq⟩⟩
  · rintro ⟨m, hfeeds, hread⟩
    have hm := hw.lt_size_of_feeds hi hfeeds
    exact hw.conditionalRead_of_feeds hfeeds (hw.conditionalRead_of_readFor hm hread)

end WellFormed
end Net
end BindingPlan
