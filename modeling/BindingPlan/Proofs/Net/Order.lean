import BindingPlan.Net.Order
import BindingPlan.Proofs.Net.Sweep

/-!
# The dependency order

If sweeping the waiting nodes ends without a cycle, the order holds every node once, and behind all
of its targets. A sweep loses no node, and it places one if some waiting node has no waiting target.

Main results:

* `follows_of_dependencyOrder`: targets stand in front of the nodes that need them.
* `perm_of_dependencyOrder`: the order is a rearrangement of all nodes.
* `mem_placeReady`, `length_waiting_placeReady_lt`: what one sweep does.
-/

namespace BindingPlan

theorem Follows.nil (needs : Nat → Nat → Prop) : Follows needs [] := by
  intro before i after h
  simp at h

theorem Follows.concat {needs : Nat → Nat → Prop} {order : List Nat} {i : Nat}
    (h : Follows needs order) (hi : ∀ j, needs i j → j ∈ order) : Follows needs (order ++ [i]) := by
  intro before k after hsplit j hj
  rcases List.eq_nil_or_concat after with rfl | ⟨rest, last, rfl⟩
  · obtain ⟨rfl, hik⟩ := List.append_inj' hsplit rfl
    obtain rfl : i = k := by simpa using hik
    exact hi j hj
  · rw [List.concat_eq_append, ← List.cons_append, ← List.append_assoc] at hsplit
    exact h before k rest (List.append_inj' hsplit rfl).1 j hj

section Order

variable {targets : Nat → List Nat}

/-- A placement whose placed nodes stand behind their targets, seen from the first one. -/
def Placement.Ordered (targets : Nat → List Nat) (placement : Placement) : Prop :=
  Follows (fun i j => j ∈ targets i) placement.placed.reverse

theorem Placement.Ordered.add {placement : Placement} (h : placement.Ordered targets) (i : Nat) :
    (placement.add targets i).Ordered targets := by
  unfold Placement.add
  split_ifs with hready
  · rw [Ordered, List.reverse_cons]
    refine h.concat fun j hj => ?_
    have := List.all_eq_true.mp hready j hj
    simpa using this
  · exact h

theorem Placement.perm_add (targets : Nat → List Nat) (placement : Placement) (i : Nat) :
    ((placement.add targets i).placed ++ (placement.add targets i).waiting).Perm
      (placement.placed ++ placement.waiting ++ [i]) := by
  have hlast := List.perm_append_singleton i (placement.placed ++ placement.waiting)
  unfold Placement.add
  split_ifs
  · exact hlast.symm
  · exact List.perm_middle.trans hlast.symm

theorem ordered_foldl_add (nodes : List Nat) {placement : Placement}
    (h : placement.Ordered targets) :
    (nodes.foldl (Placement.add targets) placement).Ordered targets := by
  induction nodes generalizing placement with
  | nil => exact h
  | cons i nodes ih => exact ih (h.add i)

theorem perm_foldl_add (targets : Nat → List Nat) (nodes : List Nat) (placement : Placement) :
    let last := nodes.foldl (Placement.add targets) placement
    (last.placed ++ last.waiting).Perm (placement.placed ++ placement.waiting ++ nodes) := by
  induction nodes generalizing placement with
  | nil => simp
  | cons i nodes ih =>
    refine (ih (placement.add targets i)).trans ?_
    have := (placement.perm_add targets i).append_right nodes
    simpa using this

/-- A sweep loses no node: those that it placed and those that still wait are those that were placed
and that waited. -/
theorem mem_placeReady {placed waiting : List Nat} {i : Nat} :
    i ∈ (placeReady targets placed waiting).placed ∨
        i ∈ (placeReady targets placed waiting).waiting ↔ i ∈ placed ∨ i ∈ waiting := by
  have hperm := perm_foldl_add targets waiting ⟨placed, []⟩
  have := hperm.mem_iff (a := i)
  simpa [placeReady] using this

/-- An order that was completed keeps what was placed in order, and holds exactly what was placed
and what was waiting. -/
theorem orderFrom_ok {bound : Nat} {placed waiting order : List Nat}
    (ho : Follows (fun i j => j ∈ targets i) placed.reverse)
    (h : orderFrom targets bound placed waiting = .ok order) :
    Follows (fun i j => j ∈ targets i) order ∧ order.Perm (placed ++ waiting) := by
  induction bound generalizing placed waiting with
  | zero =>
    cases waiting with
    | nil =>
      cases h
      exact ⟨ho, by simp⟩
    | cons i waiting => simp [orderFrom] at h
  | succ bound ih =>
    cases waiting with
    | nil =>
      cases h
      exact ⟨ho, by simp⟩
    | cons i waiting =>
      rw [orderFrom] at h
      split_ifs at h with hstuck
      have hnext : (placeReady targets placed (i :: waiting)).Ordered targets :=
        ordered_foldl_add _ ho
      have hperm := perm_foldl_add targets (i :: waiting) ⟨placed, []⟩
      obtain ⟨hfollows, hrest⟩ := ih hnext h
      refine ⟨hfollows, hrest.trans ?_⟩
      refine ((List.reverse_perm _).append_left _).trans ?_
      simpa [placeReady] using hperm

theorem follows_of_dependencyOrder {size : Nat} {order : List Nat}
    (h : dependencyOrder targets size = .ok order) : Follows (fun i j => j ∈ targets i) order :=
  (orderFrom_ok (Follows.nil _) h).1

theorem perm_of_dependencyOrder {size : Nat} {order : List Nat}
    (h : dependencyOrder targets size = .ok order) : order.Perm (List.range size) := by
  simpa using (orderFrom_ok (Follows.nil _) h).2

/-! ## Sweeps that place a node -/

theorem mem_placed_foldl_add {nodes : List Nat} {placement : Placement} {i : Nat}
    (h : i ∈ placement.placed) : i ∈ (nodes.foldl (Placement.add targets) placement).placed := by
  induction nodes generalizing placement with
  | nil => exact h
  | cons j nodes ih =>
    refine ih ?_
    unfold Placement.add
    split_ifs
    · exact List.mem_cons_of_mem _ h
    · exact h

theorem length_waiting_foldl_add_le (nodes : List Nat) (placement : Placement) :
    (nodes.foldl (Placement.add targets) placement).waiting.length ≤
      placement.waiting.length + nodes.length := by
  induction nodes generalizing placement with
  | nil => exact Nat.le_refl _
  | cons j nodes ih =>
    have hadd : (placement.add targets j).waiting.length ≤ placement.waiting.length + 1 := by
      unfold Placement.add
      split_ifs
      · exact Nat.le_succ _
      · exact Nat.le_refl _
    have := ih (placement.add targets j)
    rw [List.foldl_cons, List.length_cons]
    omega

/-- A node whose targets are all placed waits no longer. -/
theorem length_waiting_placeReady_lt {placed waiting : List Nat} {i : Nat} (hi : i ∈ waiting)
    (hready : ∀ j ∈ targets i, j ∈ placed) :
    (placeReady targets placed waiting).waiting.length < waiting.length := by
  obtain ⟨before, after, rfl⟩ := List.append_of_mem hi
  unfold placeReady
  rw [List.foldl_append, List.foldl_cons, List.length_append, List.length_cons]
  have hbefore := @length_waiting_foldl_add_le targets before ⟨placed, []⟩
  generalize hreached : before.foldl (Placement.add targets) ⟨placed, []⟩ = reached at hbefore ⊢
  have hadd : (reached.add targets i).waiting = reached.waiting := by
    unfold Placement.add
    rw [if_pos]
    refine List.all_eq_true.mpr fun j hj => List.contains_iff_mem.mpr ?_
    rw [← hreached]
    exact mem_placed_foldl_add (hready j hj)
  have hafter := @length_waiting_foldl_add_le targets after (reached.add targets i)
  rw [hadd] at hafter
  simp only [List.length_nil] at hbefore
  omega

end Order
end BindingPlan
