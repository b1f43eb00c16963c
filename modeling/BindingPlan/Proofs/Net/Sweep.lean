import Mathlib.Tactic.Common
import BindingPlan.Net.Basic

/-!
# Sweeps along an order

A sweep computes a value for every node of an order, each from the values before it. If whatever a
node looks at stands in front of the node, then the finished table satisfies the equation that
every step was computed by.

Main results:

* `Follows.reverse`: an order that puts needs first, read backwards, puts first the nodes that need
  something.
* `getD_sweep`: the value of a node is the step taken on the finished table.
-/

namespace BindingPlan

/-- Whatever a member of the list needs stands in front of it. -/
def Follows (needs : Nat → Nat → Prop) (order : List Nat) : Prop :=
  ∀ before i after, order = before ++ i :: after → ∀ j, needs i j → j ∈ before

/-- What a member needs has a smaller position. -/
theorem Follows.idxOf_lt {needs : Nat → Nat → Prop} {order : List Nat} (h : Follows needs order)
    {i j : Nat} (hi : i ∈ order) (hij : needs i j) : order.idxOf j < order.idxOf i := by
  obtain ⟨before, after, rfl, hfirst⟩ := List.eq_append_cons_of_mem hi
  have hj := h before i after rfl j hij
  rw [List.idxOf_append, if_pos hj, List.idxOf_append, if_neg hfirst]
  have := List.idxOf_lt_length_of_mem hj
  omega

theorem Follows.reverse {needs : Nat → Nat → Prop} {order : List Nat} (h : Follows needs order)
    (hn : order.Nodup) (hm : ∀ i j, needs j i → j ∈ order) :
    Follows (fun i j => needs j i) order.reverse := by
  intro before i after hsplit j hj
  have horder : order = after.reverse ++ i :: before.reverse := by
    rw [← List.reverse_reverse order, hsplit]
    simp
  have hlt := h.idxOf_lt (hm i j hj) hj
  have hmem := hm i j hj
  rw [horder] at hmem hn hlt
  -- a node in front of `i`, or `i` itself, has no larger position than `i`
  have hi : i ∉ after.reverse := fun hi => (List.nodup_append.mp hn).2.2 i hi i (by simp) rfl
  rcases List.mem_append.mp hmem with hfront | hback
  · rw [List.idxOf_append, if_neg hi, List.idxOf_append, if_pos hfront] at hlt
    have := List.idxOf_lt_length_of_mem hfront
    omega
  · rcases List.mem_cons.mp hback with rfl | hback
    · omega
    · exact List.mem_reverse.mp hback

/-! ## The finished table -/

section Table

variable {α : Type} {initial : α} {step : (Nat → α) → Nat → α}

/-- One step of a sweep. -/
def sweepStep (initial : α) (step : (Nat → α) → Nat → α) (values : Array α) (i : Nat) : Array α :=
  values.setIfInBounds i (step (fun j => values.getD j initial) i)

@[simp] theorem size_sweepStep (values : Array α) (i : Nat) :
    (sweepStep initial step values i).size = values.size := by
  simp [sweepStep]

theorem getD_sweepStep_self {values : Array α} {i : Nat} (hi : i < values.size) :
    (sweepStep initial step values i).getD i initial = step (fun j => values.getD j initial) i := by
  simp [sweepStep, hi]

theorem getD_sweepStep_ne {values : Array α} {i j : Nat} (hij : i ≠ j) :
    (sweepStep initial step values i).getD j initial = values.getD j initial := by
  simp [sweepStep, hij]

@[simp] theorem size_foldl_sweepStep (order : List Nat) (values : Array α) :
    (order.foldl (sweepStep initial step) values).size = values.size := by
  induction order generalizing values with
  | nil => rfl
  | cons i order ih => simp [ih]

theorem getD_foldl_sweepStep {order : List Nat} {j : Nat} (hj : j ∉ order) (values : Array α) :
    (order.foldl (sweepStep initial step) values).getD j initial = values.getD j initial := by
  induction order generalizing values with
  | nil => rfl
  | cons i order ih =>
    rw [List.foldl_cons, ih (fun h => hj (List.mem_cons_of_mem _ h))]
    exact getD_sweepStep_ne fun h => hj (h ▸ List.mem_cons_self)

theorem sweep_eq_foldl (size : Nat) (order : List Nat) :
    sweep size initial order step =
      order.foldl (sweepStep initial step) (Array.replicate size initial) :=
  rfl

@[simp] theorem size_sweep (size : Nat) (order : List Nat) :
    (sweep size initial order step).size = size := by
  simp [sweep_eq_foldl]

/-- The finished table satisfies the equation of the steps, if each step looks only at nodes that
stand in front. -/
theorem getD_sweep (initial : α) (size : Nat) {needs : Nat → Nat → Prop} {order : List Nat}
    (hf : Follows needs order) (hn : order.Nodup) (hb : ∀ i ∈ order, i < size)
    (hlocal : ∀ f g i, (∀ j, needs i j → f j = g j) → step f i = step g i) {i : Nat}
    (hi : i ∈ order) :
    (sweep size initial order step).getD i initial =
      step (fun j => (sweep size initial order step).getD j initial) i := by
  obtain ⟨before, after, hsplit⟩ := List.append_of_mem hi
  have hnodup := hsplit ▸ hn
  have hafter : i ∉ after := by
    have := (List.nodup_append.mp hnodup).2.1
    exact (List.nodup_cons.mp this).1
  set values := before.foldl (sweepStep initial step) (Array.replicate size initial) with hvalues
  have htable : sweep size initial order step =
      after.foldl (sweepStep initial step) (sweepStep initial step values i) := by
    rw [sweep_eq_foldl, hsplit, List.foldl_append, List.foldl_cons]
  have hsize : i < values.size := by
    rw [hvalues, size_foldl_sweepStep, Array.size_replicate]
    exact hb i hi
  rw [htable, getD_foldl_sweepStep hafter, getD_sweepStep_self hsize]
  apply hlocal
  intro j hj
  -- `j` was finished in front of `i` and is not met again
  have hjb := hf before i after hsplit j hj
  have hne : ∀ k ∈ i :: after, j ≠ k := fun k hk => (List.nodup_append.mp hnodup).2.2 j hjb k hk
  rw [getD_foldl_sweepStep fun h => hne j (List.mem_cons_of_mem _ h) rfl,
    getD_sweepStep_ne (hne i List.mem_cons_self).symm]

end Table

end BindingPlan
