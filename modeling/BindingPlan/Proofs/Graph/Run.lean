import BindingPlan.Graph.Basic
import BindingPlan.Proofs.Operation

/-!
# Running operations on a graph

What the primitive operations on a graph answer, and in which state they leave it. A sequence stops
at the first failure and keeps the state that was reached by then.
-/

namespace BindingPlan
namespace GraphM

variable {α β : Type} (graph : Graph)

/-- Two operations in a row: the second one runs in the state that the first one leaves. -/
@[simp] theorem run_bind (x : GraphM α) (f : α → GraphM β) :
    (x >>= f).run.run graph =
      match x.run.run graph with
      | (.ok a, next) => (f a).run.run next
      | (.error e, next) => (.error e, next) := by
  rw [Operation.run_bind]
  rcases x.run.run graph with ⟨_ | a, next⟩ <;> rfl

@[simp] theorem run_pure (a : α) : (pure a : GraphM α).run.run graph = (.ok a, graph) :=
  rfl

@[simp] theorem run_get : (get : GraphM Graph).run.run graph = (.ok graph, graph) :=
  rfl

@[simp] theorem run_set (next : Graph) :
    (set next : GraphM PUnit).run.run graph = (.ok ⟨⟩, next) :=
  rfl

@[simp] theorem run_modify (change : Graph → Graph) :
    (modify change : GraphM PUnit).run.run graph = (.ok ⟨⟩, change graph) :=
  rfl

theorem run_ensureOpen {graph : Graph} (h : graph.isSealed = false) :
    ensureOpen.run.run graph = (.ok ⟨⟩, graph) := by
  unfold ensureOpen
  rw [run_bind, run_get]
  dsimp only
  rw [if_neg (Bool.eq_false_iff.mp h)]
  rfl

theorem run_ensureOpen_bind_of_isSealed {graph : Graph} {f : Unit → GraphM β}
    (h : graph.isSealed = true) :
    (ensureOpen >>= f).run.run graph = (.error .alreadySealed, graph) := by
  unfold ensureOpen
  rw [run_bind, run_bind, run_get]
  simp only [h, if_true]
  rfl

end GraphM
end BindingPlan
