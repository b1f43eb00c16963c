import BindingPlan.Proofs.Binding.Lowering

/-!
# Histories of a binder

Variables and imports are declared, sources are bound, and at some time the graph is sealed and its
reads are planned. Each call may fail, and calls may come in any order.

Main results:

* `Call.relates_run`, `Call.keeps_run`: calls keep what operations on the graph keep, and no call
  takes a found node away.
* `Binder.findsVariables_after`: after every history, the node of each variable is found by its
  name.
-/

namespace BindingPlan

variable {classes : ClassRegistry}

/-- What is done with a binder. -/
inductive Call where
  | addVariable (name type : String)
  | addImport (wanted qualified : String)
  | parse (source : String)
  | sealGraph
  | plan

/-- The binder after a call. -/
def Call.run (classes : ClassRegistry) (binder : Binder) : Call → Binder
  | .addVariable name type => (binder.addVariable name type).2
  | .addImport wanted qualified => (binder.addImport wanted qualified).2
  | .parse source => ((BinderM.bindSource classes source).run.run binder).2
  | .sealGraph => (binder.run (GraphM.sealGraph classes)).2
  | .plan => (binder.run GraphM.plan).2

/-- The binder after a history that starts with the empty one. -/
def Binder.after (classes : ClassRegistry) (calls : List Call) : Binder :=
  calls.foldl (Call.run classes) .empty

theorem Binder.keeps_run {α : Type} {operation : GraphM α}
    (h : Operation.Keeps Graph.Keeps operation) (binder : Binder) :
    binder.Keeps (binder.run operation).2 :=
  ⟨h binder.graph, rfl⟩

theorem Binder.graph_addVariable (name type : String) (binder : Binder) :
    (binder.addVariable name type).2.graph =
      ((GraphM.declareVariable name type).run.run binder.graph).2 := by
  unfold addVariable run
  generalize (GraphM.declareVariable name type).run.run binder.graph = outcome
  obtain ⟨_ | id, graph⟩ := outcome <;> rfl

theorem Binder.findsVariables_addVariable {binder : Binder} (h : binder.FindsVariables)
    (name type : String) : (binder.addVariable name type).2.FindsVariables := by
  have hkeeps := keeps_run (Graph.allows_keeps.declareVariable name type) binder
  have hfinds := GraphM.finds_declareVariable name type binder.graph
  unfold addVariable
  unfold run at hkeeps ⊢
  generalize hrun : (GraphM.declareVariable name type).run.run binder.graph = outcome at hkeeps ⊢
  obtain ⟨_ | id, graph⟩ := outcome
  · exact h.mono hkeeps
  · intro other node hnode
    rw [variableNode?_cons] at hnode
    split at hnode
    · next heq =>
      cases hnode
      rw [heq]
      exact hfinds id graph hrun
    · exact (h.mono hkeeps) other node hnode

section

variable {relation : Graph → Graph → Prop} [IsPreorder Graph relation] (h : Graph.Allows relation)

include h

theorem Binder.relates_addVariable (name type : String) (binder : Binder) :
    relation binder.graph (binder.addVariable name type).2.graph := by
  rw [graph_addVariable]
  exact h.declareVariable name type binder.graph

/-- Calls keep what every operation on the graph keeps. -/
theorem Call.relates_run (call : Call) (binder : Binder) :
    relation binder.graph (call.run classes binder).graph := by
  cases call with
  | addVariable name type => exact Binder.relates_addVariable h name type binder
  | addImport wanted qualified => exact h.addImport wanted qualified binder.graph
  | parse source => exact (BinderM.follows_bindSource (h.binding classes) source binder).graph
  | sealGraph => exact h.sealGraph classes binder.graph
  | plan => exact h.plan binder.graph

end

/-- No call takes a found node away. -/
theorem Call.keeps_run (call : Call) (binder : Binder) :
    binder.graph.Keeps (call.run classes binder).graph :=
  call.relates_run Graph.allows_keeps binder

theorem Call.findsVariables_run (call : Call) {binder : Binder} (h : binder.FindsVariables) :
    (call.run classes binder).FindsVariables := by
  cases call with
  | addVariable name type => exact Binder.findsVariables_addVariable h name type
  | addImport wanted qualified =>
    exact h.mono (Binder.keeps_run (Graph.allows_keeps.addImport _ _) binder)
  | parse source => exact h.mono (BinderM.keeps_bindSource source binder)
  | sealGraph => exact h.mono (Binder.keeps_run (Graph.allows_keeps.sealGraph _) binder)
  | plan => exact h.mono (Binder.keeps_run Graph.allows_keeps.plan binder)

theorem Binder.findsVariables_foldl (calls : List Call) {binder : Binder}
    (h : binder.FindsVariables) : (calls.foldl (Call.run classes) binder).FindsVariables := by
  induction calls generalizing binder with
  | nil => exact h
  | cons call calls ih => exact ih (call.findsVariables_run h)

theorem Binder.keeps_foldl (calls : List Call) (binder : Binder) :
    binder.graph.Keeps (calls.foldl (Call.run classes) binder).graph := by
  induction calls generalizing binder with
  | nil => exact .refl _
  | cons call calls ih => exact (call.keeps_run binder).trans (ih _)

/-- After every history, the node of each variable is found by its name. -/
theorem Binder.findsVariables_after (calls : List Call) :
    (Binder.after classes calls).FindsVariables :=
  findsVariables_foldl calls fun _ _ h => by cases h

end BindingPlan
