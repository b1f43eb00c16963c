import BindingPlan.Proofs.Binding.Relowering
import BindingPlan.Proofs.Binding.Sharing
import BindingPlan.Proofs.Graph.Settled

/-!
# Equal expressions, again and again

Between two uses of an expression over variables anything may be done with a binder, or with its
graph behind its back: other sources are bound, links move, calls fail halfway. While the graph is
open, the second use comes to the node of the first one: no operation takes a node away or changes
its key. And a source that was bound once is bound again without a trace: its nodes are there, and
the type and the class of its root are remembered.

Main results:

* `Binder.Event`: what can happen to a binder.
* `BinderM.bindSource_again`: binding a source again gives its root and adds no node.
* `equal_expressions_share`: equal expressions share a node, whatever happens in between.
-/

namespace BindingPlan

variable {classes : ClassRegistry}

/-! ## Events -/

section

variable {relation : Graph → Graph → Prop} [IsPreorder Graph relation]

/-- Requests keep what every operation on a graph keeps. -/
theorem Graph.Request.relates_run (h : Graph.Allows relation) (asked : Graph.Request)
    (graph : Graph) : relation graph (asked.run graph) := by
  cases asked with
  | register kind children => exact h.register kind children graph
  | declareVariable name type => exact h.declareVariable name type graph
  | symbol text type => exact h.symbol text type graph
  | addImport wanted qualified => exact h.addImport wanted qualified graph
  | classRefFor type => exact h.classRefFor type graph
  | bind id => exact h.bind id graph
  | resolve classes id => exact (h.admits classes).resolve id graph
  | classify classes id => exact (h.admits classes).classify id graph
  | «seal» classes => exact h.sealGraph classes graph
  | plan => exact h.plan graph

end

namespace Binder

/-- What can happen to a binder: a call, or a request to its graph. -/
inductive Event where
  | call (made : Call)
  | request (asked : Graph.Request)

/-- The binder behind an event. -/
def Event.run (classes : ClassRegistry) (binder : Binder) : Event → Binder
  | .call made => made.run classes binder
  | .request asked => { binder with graph := asked.run binder.graph }

/-- The binder behind a sequence of events. -/
def behind (classes : ClassRegistry) (events : List Event) (binder : Binder) : Binder :=
  events.foldl (Event.run classes) binder

variable {binder : Binder} {names : List String}

theorem relates_behind {relation : Graph → Graph → Prop} [IsPreorder Graph relation]
    (h : Graph.Allows relation) (classes : ClassRegistry) (events : List Event)
    (binder : Binder) :
    relation binder.graph (binder.behind classes events).graph := by
  induction events generalizing binder with
  | nil => exact refl_of relation binder.graph
  | cons event events ih =>
    refine trans_of relation ?_ (ih (event.run classes binder))
    cases event with
    | call made => exact made.relates_run h binder
    | request asked => exact asked.relates_run h binder.graph

theorem findsVariables_behind (events : List Event) (h : binder.FindsVariables) :
    (binder.behind classes events).FindsVariables := by
  induction events generalizing binder with
  | nil => exact h
  | cons event events ih =>
    refine ih ?_
    cases event with
    | call made => exact made.findsVariables_run h
    | request asked => exact h.mono ⟨asked.relates_run Graph.allows_keeps binder.graph, rfl⟩

/-- A name of a variable stays one. -/
theorem declares_run (made : Call) (h : binder.Declares names) :
    (made.run classes binder).Declares names := by
  cases made with
  | parse source => exact h.mono (BinderM.keeps_bindSource source binder)
  | addVariable name type =>
    show (binder.addVariable name type).2.Declares names
    unfold addVariable run
    generalize (GraphM.declareVariable name type).run.run binder.graph = outcome
    obtain ⟨_ | id, graph⟩ := outcome
    · exact h
    · intro other hother
      unfold variableNode?
      simp only [List.lookup_cons]
      split
      · rfl
      · exact h other hother
  | addImport | sealGraph | plan => exact h

theorem declares_behind (events : List Event) (h : binder.Declares names) :
    (binder.behind classes events).Declares names := by
  induction events generalizing binder with
  | nil => exact h
  | cons event events ih =>
    refine ih ?_
    cases event with
    | call made => exact declares_run made h
    | request asked => exact h

end Binder

/-! ## The same expression again -/

namespace BinderM

open Operation

variable {binder reached next : Binder} {tree other : Tree} {source : String} {id root : Nat}

/-- What was lowered once is found again, whatever happened in between. -/
theorem lower_again (hvariables : binder.FindsVariables) (hdeclared : binder.Declares tree.idents)
    (hlowers : Lowers binder tree.expression id next) (events : List Binder.Event)
    (hopen : (next.behind classes events).graph.isSealed = false)
    (heq : other.expression = tree.expression) :
    ∃ last, (lower classes other).run.run (next.behind classes events) = (.ok id, last) ∧
      Lowers (next.behind classes events) tree.expression id last ∧
      last.graph.size = (next.behind classes events).graph.size := by
  have hkeeps := Binder.relates_behind Graph.allows_keeps classes events next
  have hdeclared : next.Declares other.idents := fun name hname =>
    (hdeclared.mono hlowers.keeps) name (Tree.mem_idents_of_expression_eq heq hname)
  obtain ⟨again, last, hrun, hagain⟩ := exists_run_lower other
    (Binder.findsVariables_behind events (hvariables.mono hlowers.keeps))
    (Binder.declares_behind events hdeclared) hopen
  rw [heq] at hagain
  -- the key leads to the node of the first time
  have hid := hagain.keeps.graph _ _ (hkeeps _ _ hlowers.found)
  cases Option.some.inj (hid.symm.trans hagain.found)
  exact ⟨last, hrun, hagain, hagain.size_eq (hlowers.holds.mono hkeeps)⟩

/-- Lowering, marking and classifying a root that is classified. -/
theorem run_bindTree_of_classified {dynamic : Bool}
    (hlower : (lower classes tree).run.run binder = (.ok root, reached))
    (hopen : reached.graph.isSealed = false) (hroot : root < reached.graph.size)
    (hresolved : (reached.graph.node root).resolvedType.isSome)
    (hdynamic : (reached.graph.node root).dynamic = some dynamic) :
    (bindTree classes tree).run.run binder = (.ok root, { reached with
      graph := reached.graph.modify root fun node => { node with isBinding := true } }) := by
  have hmark : (GraphM.bind root).run.run reached.graph =
      (.ok ⟨⟩, reached.graph.modify root fun node => { node with isBinding := true }) := by
    unfold GraphM.bind
    rw [run_bind_of_run (GraphM.run_ensureOpen hopen)]
    rfl
  have hclassify : (GraphM.classify classes root).run.run
        (reached.graph.modify root fun node => { node with isBinding := true }) =
      (.ok dynamic, reached.graph.modify root fun node => { node with isBinding := true }) := by
    refine GraphM.run_classify_of_classified ?_ ?_
    · rwa [Graph.node_modify_self hroot]
    · rwa [Graph.node_modify_self hroot]
  unfold bindTree
  rw [run_bind_of_run hlower, run_bind_of_run (run_onGraph_of_run tree.span hmark),
    run_bind_of_run (run_onGraph_of_run tree.span hclassify)]
  rfl

/-- A source over variables that was bound is bound again to its root, and adds no node. -/
theorem bindSource_again (hvariables : binder.FindsVariables)
    (hdeclared : binder.Declares tree.idents) (hopen : binder.graph.isSealed = false)
    (hparsed : (parse source).result = .ok tree)
    (hrun : (bindSource classes source).run.run binder = (.ok root, next))
    (events : List Binder.Event)
    (hopen' : (next.behind classes events).graph.isSealed = false) :
    ∃ last, (bindSource classes source).run.run (next.behind classes events) = (.ok root, last) ∧
      last.graph.size = (next.behind classes events).graph.size := by
  obtain ⟨hsource, reached, marked, dynamic, classified, hlower, hmark, hclassify, rfl⟩ :=
    exists_of_run_bindSource hparsed hrun
  have hlowers := lowers_of_run hvariables hdeclared hopen hlower
  -- marking and classifying are requests to the graph like any others
  have hbehind : ({ reached with graph := classified } : Binder).behind classes events =
      reached.behind classes (.request (.bind root) :: .request (.classify classes root) ::
        events) := by
    unfold Binder.behind
    simp only [List.foldl_cons, Binder.Event.run, Graph.Request.run, hmark, hclassify]
  obtain ⟨last, hagain, hlast, hsize⟩ :=
    lower_again hvariables hdeclared hlowers _ (hbehind ▸ hopen') rfl
  rw [← hbehind] at hagain hlast hsize
  -- what was learned of the root at the first time is still known
  have hroot : root < marked.size :=
    (Graph.find?_eq_some_iff.mp ((Graph.allows_keeps.bind root).of_run hmark _ _ hlowers.found)).1
  obtain ⟨hresolved, hdynamic⟩ := GraphM.classified_of_run_classify hroot hclassify
  have hremembers : classified.Remembers last.graph :=
    (Binder.relates_behind Graph.allows_remembers classes events
        { reached with graph := classified }).trans
      ((follows_lower (Graph.allows_remembers.binding _) tree).of_run hagain).graph
  have hbound := run_bindTree_of_classified hagain hlast.isOpen
    (Graph.find?_eq_some_iff.mp hlast.found).1 (hremembers.resolved hresolved)
    (hremembers.dynamic root dynamic hdynamic)
  rw [hsource]
  exact ⟨_, hbound, (Graph.size_modify _ _).trans hsize⟩

end BinderM

/-- Whatever happened to a binder whose graph is open, an expression over its variables is lowered
to a node whose key is the text of the expression, with `a ?? b` written out as `a == null ? b : a`.
And whatever happens from then on, as long as the graph is open: every tree that says the same is
lowered to that node; and if a source of the expression was bound, then it is bound again to its
root and adds no node. -/
theorem equal_expressions_share (classes : ClassRegistry) (history : List Binder.Event)
    (tree : Tree) :
    let start := Binder.empty.behind classes history
    start.graph.isSealed = false → start.Declares tree.idents →
    (∃ id next, (BinderM.lower classes tree).run.run start = (.ok id, next) ∧
      id < next.graph.size ∧ next.graph.keyOf id = tree.expanded.render ∧
      ∀ events, (next.behind classes events).graph.isSealed = false →
        ∀ other : Tree, other.expression = tree.expression →
          ∃ last, (BinderM.lower classes other).run.run (next.behind classes events) =
            (.ok id, last)) ∧
    ∀ source root next, (parse source).result = .ok tree →
      (BinderM.bindSource classes source).run.run start = (.ok root, next) →
      ∀ events, (next.behind classes events).graph.isSealed = false →
        ∃ last, (BinderM.bindSource classes source).run.run (next.behind classes events) =
            (.ok root, last) ∧
          last.graph.size = (next.behind classes events).graph.size := by
  intro start hopen hdeclared
  have hvariables : start.FindsVariables :=
    Binder.findsVariables_behind history fun _ _ h => by cases h
  obtain ⟨id, next, hrun, hlowers⟩ := BinderM.exists_run_lower tree hvariables hdeclared hopen
  refine ⟨⟨id, next, hrun, (Graph.find?_eq_some_iff.mp hlowers.found).1, ?_, ?_⟩, ?_⟩
  · rw [Graph.keyOf_of_find? hlowers.found, tree.render_expanded]
  · intro events hopen' other heq
    obtain ⟨last, hlast, -⟩ :=
      BinderM.lower_again hvariables hdeclared hlowers events hopen' heq
    exact ⟨last, hlast⟩
  · intro source root next hparsed hbound events hopen'
    exact BinderM.bindSource_again hvariables hdeclared hopen hparsed hbound events hopen'

/-- Two variables, and a source that fails when its member is looked up. -/
def failedBefore : List Binder.Event :=
  [.call (.addVariable "a" "java.lang.String"), .call (.addVariable "b" "java.lang.String"),
    .call (.parse "(a ?? b).missing")]

theorem equal_expressions_share_failedBefore :
    let start := Binder.empty.behind .builtin failedBefore
    let tree := Tree.ofSource "a ?? b"
    (∃ id next, (BinderM.lower .builtin tree).run.run start = (.ok id, next) ∧
      id < next.graph.size ∧ next.graph.keyOf id = tree.expanded.render ∧
      ∀ events, (next.behind .builtin events).graph.isSealed = false →
        ∀ other : Tree, other.expression = tree.expression →
          ∃ last, (BinderM.lower .builtin other).run.run (next.behind .builtin events) =
            (.ok id, last)) ∧
    ∃ next, (BinderM.bindSource .builtin "a ?? b").run.run start = (.ok 4, next) ∧
      ∀ events, (next.behind .builtin events).graph.isSealed = false →
        ∃ last, (BinderM.bindSource .builtin "a ?? b").run.run (next.behind .builtin events) =
            (.ok 4, last) ∧
          last.graph.size = (next.behind .builtin events).graph.size := by
  intro start tree
  have hparsed : (parse "a ?? b").result = .ok tree :=
    Tree.result_eq_ofSource (by decide +kernel)
  have hbound : ((BinderM.bindSource .builtin "a ?? b").run.run
      (Binder.empty.behind .builtin failedBefore)).1 = .ok 4 := by decide +kernel
  obtain ⟨hshares, hagain⟩ := equal_expressions_share .builtin failedBefore
    (.ofSource "a ?? b") (by decide +kernel) (by decide +kernel)
  exact ⟨hshares, _, Prod.ext hbound rfl, hagain "a ?? b" 4 _ hparsed (Prod.ext hbound rfl)⟩

end BindingPlan
