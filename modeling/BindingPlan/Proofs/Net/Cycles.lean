import Mathlib.Data.Fintype.Card
import Mathlib.Data.Set.Finite.Basic
import Mathlib.Order.WellFounded
import BindingPlan.Proofs.Net.Order

/-!
# Orders and cycles

The loop of sweeps has no bound of its own: it goes on until nothing waits, or until a sweep places
nothing. It ends all the same, since every other sweep places a node; and the bounded loop gives the
result that it ends with.

A sweep that places nothing leaves every waiting node with a target that waits. So following waiting
targets goes on for ever, and in a finite graph this leads to a cycle. Where there is no cycle,
nothing is left waiting.

Main results:

* `Sweeps.iff_orderFrom_eq`: the loop without a bound ends, with the result of the bounded one.
* `reaches_cycle_of_orderFrom`: from the node that an error names, a cycle is reached.
* `Follows.not_transGen`: there is no cycle below a node of an order that puts targets first.
* `dependencyOrder_decides`: there is an order if and only if there is no cycle.
-/

namespace BindingPlan

section Order

variable {targets : Nat → List Nat} {placed waiting order : List Nat} {bound size i j : Nat}

/-! ## The loop without a bound -/

/-- Sweeps lead from the nodes that are placed, latest first, and those that wait to a result: an
order once nothing waits, or the first waiting node once a sweep places nothing. -/
inductive Sweeps (targets : Nat → List Nat) :
    List Nat → List Nat → Except Nat (List Nat) → Prop where
  | done {placed : List Nat} : Sweeps targets placed [] (.ok placed.reverse)
  | stuck {placed waiting : List Nat} {i : Nat} :
      (placeReady targets placed (i :: waiting)).waiting.length = (i :: waiting).length →
      Sweeps targets placed (i :: waiting) (.error i)
  | again {placed waiting : List Nat} {i : Nat} {result : Except Nat (List Nat)} :
      (placeReady targets placed (i :: waiting)).waiting.length ≠ (i :: waiting).length →
      Sweeps targets (placeReady targets placed (i :: waiting)).placed
        (placeReady targets placed (i :: waiting)).waiting.reverse result →
      Sweeps targets placed (i :: waiting) result

theorem length_waiting_placeReady_le (targets : Nat → List Nat) (placed waiting : List Nat) :
    (placeReady targets placed waiting).waiting.length ≤ waiting.length := by
  have h := @length_waiting_foldl_add_le targets waiting ⟨placed, []⟩
  rw [List.length_nil, Nat.zero_add] at h
  exact h

/-- The loop ends within as many sweeps as there are waiting nodes, so that a bound of so many
sweeps is not reached. -/
theorem sweeps_orderFrom (hbound : waiting.length ≤ bound) :
    Sweeps targets placed waiting (orderFrom targets bound placed waiting) := by
  induction bound generalizing placed waiting with
  | zero =>
    cases List.eq_nil_of_length_eq_zero (Nat.le_zero.mp hbound)
    exact .done
  | succ bound ih =>
    cases waiting with
    | nil => exact .done
    | cons i rest =>
      have hle := length_waiting_placeReady_le targets placed (i :: rest)
      rw [orderFrom]
      split_ifs with hstuck
      · rw [List.length_reverse] at hstuck
        exact .stuck hstuck
      · rw [List.length_reverse] at hstuck
        refine .again hstuck (ih ?_)
        rw [List.length_reverse]
        omega

/-- The loop ends with one result only. -/
theorem Sweeps.eq {result other : Except Nat (List Nat)} (h : Sweeps targets placed waiting result)
    (h' : Sweeps targets placed waiting other) : result = other := by
  induction h with
  | done =>
    cases h'
    rfl
  | stuck hstuck =>
    cases h' with
    | stuck => rfl
    | again hmoves => exact absurd hstuck hmoves
  | again hmoves _ ih =>
    cases h' with
    | stuck hstuck => exact absurd hstuck hmoves
    | again _ hrest => exact ih hrest

theorem Sweeps.iff_orderFrom_eq (hbound : waiting.length ≤ bound)
    {result : Except Nat (List Nat)} :
    Sweeps targets placed waiting result ↔ orderFrom targets bound placed waiting = result :=
  ⟨(sweeps_orderFrom hbound).eq, fun h => h ▸ sweeps_orderFrom hbound⟩

/-! ## Cycles -/

/-- The second node is a target of the first one. -/
def Needs (targets : Nat → List Nat) (i j : Nat) : Prop :=
  j ∈ targets i

/-- Following targets leads from the node to one that it leads back to. -/
def ReachesCycle (targets : Nat → List Nat) (i : Nat) : Prop :=
  ∃ j, Relation.ReflTransGen (Needs targets) i j ∧ Relation.TransGen (Needs targets) j j

/-- If every node of a list has a target in the list, then every node of it reaches a cycle. -/
theorem reachesCycle_of_forall_target {nodes : List Nat}
    (h : ∀ i ∈ nodes, ∃ j ∈ targets i, j ∈ nodes) (hi : i ∈ nodes) : ReachesCycle targets i := by
  by_contra hcycle
  -- below `i` no node reaches itself, so among finitely many nodes there is a lowest one
  let reachedFrom (j k : { j : { j // j ∈ nodes } // Relation.ReflTransGen (Needs targets) i j }) :
      Prop := Relation.TransGen (Needs targets) k j
  have : Finite { j // j ∈ nodes } := (List.finite_toSet nodes).to_subtype
  have : IsTrans _ reachedFrom := ⟨fun _ _ _ hjk hkl => hkl.trans hjk⟩
  have : Std.Irrefl reachedFrom := ⟨fun j hj => hcycle ⟨j, j.2, hj⟩⟩
  have hwf := Finite.wellFounded_of_trans_of_irrefl reachedFrom
  obtain ⟨⟨⟨m, hm⟩, him⟩, -, hlowest⟩ := hwf.has_min Set.univ ⟨⟨⟨i, hi⟩, .refl⟩, trivial⟩
  obtain ⟨k, hmk, hk⟩ := h m hm
  exact hlowest ⟨⟨k, hk⟩, him.tail hmk⟩ trivial (.single hmk)

/-- When a sweep places nothing, each waiting node has a target that waits as well. -/
theorem exists_waiting_target
    (hmem : ∀ i ∈ waiting, ∀ j ∈ targets i, j ∈ placed ∨ j ∈ waiting)
    (hstuck : (placeReady targets placed waiting).waiting.length = waiting.length)
    (hi : i ∈ waiting) : ∃ j ∈ targets i, j ∈ waiting := by
  by_contra hnone
  refine Nat.ne_of_lt (length_waiting_placeReady_lt hi fun j hj => ?_) hstuck
  exact (hmem i hi j hj).resolve_right fun hwaits => hnone ⟨j, hj, hwaits⟩

/-- The node that an error names was waiting, and reaches a cycle. -/
theorem reaches_cycle_of_orderFrom (hbound : waiting.length ≤ bound)
    (hmem : ∀ i, i ∈ placed ∨ i ∈ waiting → ∀ j ∈ targets i, j ∈ placed ∨ j ∈ waiting)
    (h : orderFrom targets bound placed waiting = .error i) :
    (i ∈ placed ∨ i ∈ waiting) ∧ ReachesCycle targets i := by
  have hsweeps := (Sweeps.iff_orderFrom_eq hbound).mpr h
  clear h hbound
  generalize hresult : (Except.error i : Except Nat (List Nat)) = result at hsweeps
  induction hsweeps with
  | done => cases hresult
  | @stuck placed waiting first hstuck =>
    obtain rfl := Except.error.inj hresult
    refine ⟨.inr List.mem_cons_self, ?_⟩
    exact reachesCycle_of_forall_target
      (fun j hj => exists_waiting_target (fun j hj => hmem j (.inr hj)) hstuck hj)
      List.mem_cons_self
  | @again placed waiting first result _ _ ih =>
    have hsame (j : Nat) : j ∈ (placeReady targets placed (first :: waiting)).placed ∨
        j ∈ (placeReady targets placed (first :: waiting)).waiting.reverse ↔
          j ∈ placed ∨ j ∈ first :: waiting := by
      rw [List.mem_reverse, mem_placeReady]
    simp only [hsame] at ih
    exact ih hmem hresult

/-- A node of an order that puts targets first does not reach itself. -/
theorem Follows.not_transGen {needs : Nat → Nat → Prop} (h : Follows needs order)
    (hmem : ∀ i ∈ order, ∀ j, needs i j → j ∈ order) (hi : i ∈ order) :
    ¬ Relation.TransGen needs i i := by
  -- positions fall along a path
  have hfalls {j : Nat} (hij : Relation.TransGen needs i j) :
      j ∈ order ∧ order.idxOf j < order.idxOf i := by
    induction hij with
    | single hij => exact ⟨hmem i hi _ hij, h.idxOf_lt hi hij⟩
    | tail _ hjk ih => exact ⟨hmem _ ih.1 _ hjk, Nat.lt_trans (h.idxOf_lt ih.1 hjk) ih.2⟩
  exact fun hcycle => Nat.lt_irrefl _ (hfalls hcycle).2

/-! ## The order of all nodes -/

/-- An order in which every target stands in front of the nodes that need it, and which holds every
node once. -/
def IsOrder (targets : Nat → List Nat) (size : Nat) (order : List Nat) : Prop :=
  order.Perm (List.range size) ∧ Follows (Needs targets) order

theorem isOrder_of_dependencyOrder (h : dependencyOrder targets size = .ok order) :
    IsOrder targets size order :=
  ⟨perm_of_dependencyOrder h, follows_of_dependencyOrder h⟩

section

variable (hedges : ∀ i < size, ∀ j ∈ targets i, j < size)

include hedges

theorem IsOrder.not_transGen (h : IsOrder targets size order) (hi : i < size) :
    ¬ Relation.TransGen (Needs targets) i i := by
  have hmem {i : Nat} : i ∈ order ↔ i < size := h.1.mem_iff.trans List.mem_range
  exact h.2.not_transGen (fun i hi j hj => hmem.mpr (hedges i (hmem.mp hi) j hj)) (hmem.mpr hi)

theorem reachesCycle_of_dependencyOrder (h : dependencyOrder targets size = .error i) :
    i < size ∧ ReachesCycle targets i := by
  have hmem (i : Nat) : i ∈ [] ∨ i ∈ List.range size ↔ i < size := by simp
  have h := reaches_cycle_of_orderFrom (Nat.le_of_eq List.length_range)
    (by simpa only [hmem] using hedges) h
  rwa [hmem] at h

/-- A cycle is made of nodes, if one of them is a node. -/
theorem lt_size_of_reaches (hi : i < size) (hij : Relation.ReflTransGen (Needs targets) i j) :
    j < size := by
  induction hij with
  | refl => exact hi
  | tail _ hjk ih => exact hedges _ ih _ hjk

theorem exists_dependencyOrder_iff : (∃ order, dependencyOrder targets size = .ok order) ↔
    ∀ i < size, ¬ Relation.TransGen (Needs targets) i i := by
  constructor
  · rintro ⟨order, horder⟩ i hi
    exact (isOrder_of_dependencyOrder horder).not_transGen hedges hi
  · intro hnone
    cases horder : dependencyOrder targets size with
    | ok order => exact ⟨order, rfl⟩
    | error i =>
      obtain ⟨hi, j, hij, hj⟩ := reachesCycle_of_dependencyOrder hedges horder
      exact absurd hj (hnone j (lt_size_of_reaches hedges hi hij))

end

/-- Whatever the nodes depend on, the sweeps over all nodes come to an end, and `dependencyOrder` is
the result. It is an order if and only if no node leads to itself along targets; then it holds every
node once, behind all of its targets. Otherwise it names a node from which a cycle is reached. -/
theorem dependencyOrder_decides (hedges : ∀ i < size, ∀ j ∈ targets i, j < size) :
    (∀ result, Sweeps targets [] (List.range size) result ↔
      dependencyOrder targets size = result) ∧
    ((∃ order, dependencyOrder targets size = .ok order) ↔
      ∀ i < size, ¬ Relation.TransGen (Needs targets) i i) ∧
    (∀ order, dependencyOrder targets size = .ok order → IsOrder targets size order) ∧
    ∀ i, dependencyOrder targets size = .error i → i < size ∧ ReachesCycle targets i :=
  ⟨fun _ => Sweeps.iff_orderFrom_eq (Nat.le_of_eq List.length_range),
    exists_dependencyOrder_iff hedges, fun _ => isOrder_of_dependencyOrder,
    fun _ => reachesCycle_of_dependencyOrder hedges⟩

/-- In the first sweep two nodes wait, and in the second one still one of them. -/
theorem dependencyOrder_decides_waiting :
    let targets (i : Nat) : List Nat := [[2, 1], [2], []].getD i []
    (∀ i < 3, ∀ j ∈ targets i, j < 3) ∧ dependencyOrder targets 3 = .ok [2, 1, 0] ∧
      IsOrder targets 3 [2, 1, 0] ∧ ∀ i < 3, ¬ Relation.TransGen (Needs targets) i i := by
  intro targets
  have hedges : ∀ i < 3, ∀ j ∈ targets i, j < 3 := by decide
  have horder : dependencyOrder targets 3 = .ok [2, 1, 0] := by decide
  obtain ⟨-, hacyclic, hvalid, -⟩ := dependencyOrder_decides hedges
  exact ⟨hedges, horder, hvalid _ horder, hacyclic.mp ⟨_, horder⟩⟩

/-- The node that is named need not lie on a cycle itself. -/
example : dependencyOrder (fun i => [[1], [2], [1]].getD i []) 3 = .error 0 := by decide

end Order
end BindingPlan
