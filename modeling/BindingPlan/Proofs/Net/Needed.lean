import BindingPlan.Proofs.Net.WellFormed

/-!
# Nodes that bindings need

A node is needed if a dynamic binding reaches it through its dependencies. A node that no binding
needs keeps its edges, and what it may be read for are requirements: those of the branches that it
stands behind, of conditionals that no binding needs either.

Main results:

* `Net.WellFormed.mem_conditionalRead_of_not_needed`: what an unneeded node may be read for.
* `Net.WellFormed.needed_of_mem_invalid`: only needed nodes may be read for an invalid flag.
-/

namespace BindingPlan
namespace Net

/-- A dynamic binding reaches the node through dependencies. -/
inductive Needed (net : Net) : Nat → Prop
  | root {i : Nat} : (net.node i).isBinding = true → (net.node i).isDynamic = true → Needed net i
  | target {i : Nat} {d : Dependency} : Needed net i → d ∈ (net.node i).dependencies →
      Needed net d.target

/-- The node is part of the branch of a conditional: it is the target of a guarded dependency, or
what such a target needs without another guard in between. -/
inductive Behind (net : Net) (c : Nat) (branch : Bool) : Nat → Prop
  | guarded {d : Dependency} {g : Guard} : d ∈ (net.node c).dependencies → d.guard = some g →
      g.branch = branch → Behind net c branch d.target
  | target {i : Nat} {d : Dependency} : Behind net c branch i → d ∈ (net.node i).dependencies →
      d.guard = none → Behind net c branch d.target

variable {net : Net} {i c n flag : Nat} {branch : Bool}

theorem Behind.needed (h : net.Behind c branch n) (hc : net.Needed c) : net.Needed n := by
  induction h with
  | guarded hd _ _ => exact hc.target hd
  | target _ hd _ ih => exact ih.target hd

/-- A conditional with something behind it has a guard. -/
theorem Behind.exists_guard (h : net.Behind c branch n) :
    ∃ d ∈ (net.node c).dependencies, ∃ g, d.guard = some g ∧ g.branch = branch := by
  induction h with
  | guarded hd hg hb => exact ⟨_, hd, _, hg, hb⟩
  | target _ _ _ ih => exact ih

/-- The set has all dynamic bindings and is closed under dependencies. -/
def Closed (net : Net) (set : List Nat) : Prop :=
  (∀ i ∈ net.ids, (net.node i).isBinding = true → (net.node i).isDynamic = true → i ∈ set) ∧
    ∀ i ∈ set, ∀ d ∈ (net.node i).dependencies, d.target ∈ set

instance (net : Net) (set : List Nat) : Decidable (net.Closed set) :=
  inferInstanceAs (Decidable (_ ∧ _))

theorem Needed.mem_of_closed {set : List Nat} (h : net.Needed n) (hclosed : net.Closed set) :
    n ∈ set := by
  induction h with
  | root hb hd => exact hclosed.1 _ (List.mem_range.mpr (lt_size_of_dynamic hd)) hb hd
  | target _ hd ih => exact hclosed.2 _ ih _ hd

namespace WellFormed

variable (hw : net.WellFormed)
include hw

/-- What stands behind a branch may be read for its requirement. -/
theorem conditionalRead_of_behind (h : net.Behind c branch n)
    (hf : (net.node c).requirementFlag? branch = some flag) :
    flag ∈ (net.node n).conditionalRead := by
  induction h with
  | guarded hd hg hb => exact hw.conditionalRead_of_guard hd hg (hb ▸ hf)
  | target _ hd hg ih => exact hw.conditionalRead_of_plain hd hg ih

/-- A dynamic node that no binding needs may be read for requirements of the branches that it stands
behind, and for nothing else. -/
theorem mem_conditionalRead_of_not_needed (hn : ¬net.Needed n)
    (hdyn : (net.node n).isDynamic = true) :
    flag ∈ (net.node n).conditionalRead ↔
      ∃ c b, net.flags.requirement? flag = some (c, b) ∧ net.Behind c b n := by
  constructor
  · intro hf
    induction n using hw.induction_dependants with
    | step n ih =>
      have hneed := (hw.mem_conditionalRead n (lt_size_of_dynamic hdyn) flag).mp hf
      rcases hneed with ⟨hb, -⟩ | ⟨m, d, hd, rfl, ⟨hg, hm⟩ | ⟨g, hg, hreq⟩⟩
      · exact absurd (.root hb hdyn) hn
      · obtain ⟨c, b, hreq, hbehind⟩ :=
          ih m d hd rfl (fun h => hn (h.target hd)) (hw.dynamic_of_dependency m d hd) hm
        exact ⟨c, b, hreq, hbehind.target hd hg⟩
      · exact ⟨m, g.branch, (hw.requirement_iff flag m g.branch).mpr hreq, .guarded hd hg rfl⟩
  · rintro ⟨c, b, hreq, hbehind⟩
    exact hw.conditionalRead_of_behind hbehind ((hw.requirement_iff flag c b).mp hreq)

/-- A dynamic node that may be read for the invalid flag of a node is needed. -/
theorem needed_of_mem_invalid (hdyn : (net.node n).isDynamic = true)
    (hf : flag ∈ (net.node n).conditionalRead) (hinv : flag ∈ (net.node i).invalid) :
    net.Needed n := by
  by_contra hn
  obtain ⟨c, b, hreq, -⟩ := (hw.mem_conditionalRead_of_not_needed hn hdyn).mp hf
  rw [hw.requirement?_of_mem_invalid hinv] at hreq
  exact absurd hreq (by simp)

end WellFormed
end Net
end BindingPlan
