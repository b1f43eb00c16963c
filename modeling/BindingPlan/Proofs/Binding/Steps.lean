import BindingPlan.Proofs.Binding.History
import BindingPlan.Proofs.Graph.Walk

/-!
# What binding does to a graph

Lowering a tree registers its parts, and gives them spans of the tree. Then the root is marked and
classified. All of this takes steps of the graph, and declares no variable. The error that it may
end with is about a span of the tree, or about a member that could not be resolved, and then about
the span of a node.

Main results:

* `BinderM.Takes`: the operation takes steps, and what holds if it gives a result.
* `BinderM.takes_lower`: the key of a lowered tree is that of an expression.
* `BinderM.takes_bindSource`: binding a source takes steps, and what its error is about.
-/

namespace BindingPlan

open BindingPlan.Graph

/-! ## Diagnostics -/

/-- What a diagnostic is about: a given span, or the span of a node whose member was not found. And
it tells of a cycle only if walks may run into one. -/
structure Diagnostic.Reports (rules : Rules) (given : Span → Prop) (graph : Graph)
    (d : Diagnostic) : Prop where
  span : given d.span ∨
    d.code = some DiagnosticCode.unresolvedMember ∧ ∃ i, (graph.node i).span = some d.span
  cycle : ∀ key span, d = .ofGraphError (.dependencyCycle key) span → rules.cycles

namespace Diagnostic

variable {rules : Rules} {given : Span → Prop} {graph : Graph} {span : Span} {code message : String}

/-- A diagnostic with a code of its own tells of no cycle. -/
theorem reports_error (hspan : given span) (hcode : code ≠ DiagnosticCode.internal)
    (hint : Option String) :
    Reports rules given graph { error code span message with hint := hint } where
  span := .inl hspan
  cycle := fun _ _ h => absurd (Option.some.inj (congrArg Diagnostic.code h)) hcode

/-- An error of a graph tells of a cycle only if it is one: no other message starts like that. -/
theorem eq_dependencyCycle {e : GraphError} {key : String} {other : Span}
    (h : ofGraphError e span = ofGraphError (.dependencyCycle key) other) :
    ∃ key, e = .dependencyCycle key := by
  have hfirst : (ofGraphError (.dependencyCycle key) other).message.toList.head? = some 'd' := by
    unfold ofGraphError error GraphError.message
    simp only [String.toList_append]
    rfl
  rw [← h] at hfirst
  unfold ofGraphError error GraphError.message at hfirst
  cases e with
  | dependencyCycle key => exact ⟨key, rfl⟩
  | _ =>
    simp only [String.toList_append] at hfirst
    cases hfirst

theorem reports_ofGraphError {e : GraphError} (h : e.Reports rules graph) (hspan : given span) :
    Reports rules given graph (ofGraphError e span) where
  span := by
    cases e with
    | resolution key found cause =>
      cases found with
      | none => exact .inl hspan
      | some found => exact .inr ⟨rfl, h.span key found cause rfl⟩
    | _ => exact .inl hspan
  cycle := by
    intro key other heq
    obtain ⟨key, rfl⟩ := eq_dependencyCycle heq
    exact h.cycle key rfl

end Diagnostic

/-! ## Binders -/

/-- The node has the key of an expression. -/
def Graph.SpelledAt (known : String → Prop) (graph : Graph) (id : Nat) : Prop :=
  id < graph.size ∧ Spelled known (graph.keyOf id).toList

theorem Graph.SpelledAt.steps {rules : Rules} {known : String → Prop} {graph next : Graph}
    {id : Nat} (h : graph.SpelledAt known id) (hsteps : rules.Steps graph next) :
    next.SpelledAt known id := by
  refine ⟨Nat.lt_of_lt_of_le h.1 (Rules.Steps.size_le hsteps), ?_⟩
  rw [Rules.Steps.keyOf hsteps h.1]
  exact h.2

theorem Graph.spelledAt_of_find? {known : String → Prop} {graph : Graph} {key : String} {id : Nat}
    (h : graph.find? key = some id) (hkey : Spelled known key.toList) : graph.SpelledAt known id :=
  ⟨(find?_eq_some_iff.mp h).1, (keyOf_of_find? h).symm ▸ hkey⟩

/-- What binding relies on: expressions may be registered over nodes with keys of expressions,
classes have known names, and while something holds of the graph, nodes can be classified. -/
structure Graph.Rules.Serves (rules : Rules) (classes : ClassRegistry) (known : String → Prop)
    (holds : Graph → Prop) : Prop where
  leaf : ∀ graph kind, kind.isLeaf = true → rules.expression graph kind []
  expression : ∀ graph kind children, kind.Composes children.length →
    (∀ child ∈ children, graph.SpelledAt known child) → rules.expression graph kind children
  findClass : ∀ name type, classes.findClass name = .ok type →
    rules.typeName type.name ∧ known type.name
  ready : ∀ graph id name, holds graph → known name →
    graph.find? (Kind.classKey name) = some id → rules.ready graph (graph.node id).children
  steps : ∀ graph next, holds graph → rules.Steps graph next → holds next
  classify : ∀ graph id, holds graph → id < graph.size →
    GraphM.Takes rules (GraphM.classify classes id) graph fun _ _ => True
  sealGraph : ∀ graph, holds graph →
    GraphM.Takes rules (GraphM.sealGraph classes) graph fun _ _ => True

namespace Binder

variable {classes : ClassRegistry} {rules : Rules} {known : String → Prop} {holds : Graph → Prop}
  {binder next last : Binder}

/-- The graph takes steps, and the variables stay. -/
structure Steps (rules : Rules) (binder next : Binder) : Prop where
  graph : rules.Steps binder.graph next.graph
  variableNodes : next.variableNodes = binder.variableNodes

theorem Steps.refl : Steps rules binder binder :=
  ⟨.refl, rfl⟩

theorem Steps.trans (h : Steps rules binder next) (h' : Steps rules next last) :
    Steps rules binder last :=
  ⟨h.graph.trans h'.graph, h'.variableNodes.trans h.variableNodes⟩

/-- Something holds of the graph, and variables that sources can name have keys of expressions. -/
structure Meets (known : String → Prop) (holds : Graph → Prop) (binder : Binder) : Prop where
  graph : holds binder.graph
  named : ∀ name id, IsName name.toList → binder.variableNode? name = some id →
    binder.graph.SpelledAt known id

theorem meets_empty (h : holds .empty) : Meets known holds .empty :=
  ⟨h, fun _ _ _ hnode => by cases hnode⟩

theorem Meets.steps (h : binder.Meets known holds)
    (hserves : rules.Serves classes known holds) (hsteps : Steps rules binder next) :
    next.Meets known holds where
  graph := hserves.steps _ _ h.graph hsteps.graph
  named := by
    intro name id hname hid
    unfold variableNode? at hid
    rw [hsteps.variableNodes] at hid
    exact (h.named name id hname hid).steps hsteps.graph

theorem meets_run {α : Type} {operation : GraphM α} {R : α → Graph → Prop}
    (hmeets : binder.Meets known holds) (hserves : rules.Serves classes known holds)
    (h : GraphM.Takes rules operation binder.graph R) :
    (binder.run operation).2.Meets known holds :=
  hmeets.steps hserves ⟨h.steps, rfl⟩

/-- A variable is found by its name, so if sources can name it then it has the key of an
expression. -/
theorem meets_addVariable (hmeets : binder.Meets known holds)
    (hserves : rules.Serves classes known holds) (name type : String) :
    (binder.addVariable name type).2.Meets known holds := by
  have htakes : GraphM.Takes rules (GraphM.declareVariable name type) binder.graph
      fun id next => next.find? name = some id :=
    GraphM.takes_declareVariable (hserves.leaf _ _ rfl)
  have hreached := meets_run hmeets hserves htakes
  unfold addVariable
  unfold run at hreached ⊢
  generalize hrun : (GraphM.declareVariable name type).run.run binder.graph = outcome at hreached ⊢
  obtain ⟨_ | id, graph⟩ := outcome
  · exact hreached
  · refine ⟨hreached.graph, fun other node hother hnode => ?_⟩
    rw [variableNode?_cons] at hnode
    split at hnode
    · next heq =>
      cases hnode
      cases heq
      exact spelledAt_of_find? (Operation.Ensures.of_ok htakes hrun).2
        (.atom (Expression.isAtom_ident hother))
    · exact hreached.named other node hother hnode

end Binder

/-! ## Operations -/

namespace BinderM

open Operation

variable {α β : Type} {rules : Rules} {given : Span → Prop} {binder next : Binder}
  {classes : ClassRegistry} {known : String → Prop} {holds : Graph → Prop} {x : BinderM α}
  {f : α → BinderM β} {R : α → Graph → Prop} {gives : β → Graph → Prop}

/-- The operation takes steps, gives only results as said, and its error is about a given span or
about a node. -/
def Takes (rules : Rules) (given : Span → Prop) (operation : BinderM α) (binder : Binder)
    (R : α → Graph → Prop) : Prop :=
  Ensures operation binder (fun a next => binder.Steps rules next ∧ R a next.graph)
    fun d next => binder.Steps rules next ∧ d.Reports rules given next.graph

theorem takes_pure {a : α} (h : R a binder.graph) : Takes rules given (pure a) binder R :=
  ensures_pure ⟨.refl, h⟩

theorem takes_throw {d : Diagnostic} (h : d.Reports rules given binder.graph) :
    Takes rules given (throw d) binder R :=
  ensures_throw ⟨.refl, h⟩

theorem takes_bind (hx : Takes rules given x binder R)
    (hf : ∀ a next, binder.Steps rules next → R a next.graph →
      Takes rules given (f a) next gives) : Takes rules given (x >>= f) binder gives := by
  refine ensures_bind hx ?_
  rintro a next ⟨hsteps, ha⟩
  refine (hf a next hsteps ha).imp ?_ ?_
  · rintro b last ⟨hmore, hb⟩
    exact ⟨hsteps.trans hmore, hb⟩
  · rintro d last ⟨hmore, hd⟩
    exact ⟨hsteps.trans hmore, hd⟩

theorem Takes.steps (h : Takes rules given x binder R) :
    binder.Steps rules (x.run.run binder).2 := by
  generalize hrun : x.run.run binder = outcome
  obtain ⟨_ | a, next⟩ := outcome
  · exact (h.of_error hrun).1
  · exact (h.of_ok hrun).1

theorem takes_get_bind {f : Binder → BinderM β} (h : Takes rules given (f binder) binder gives) :
    Takes rules given (get >>= f) binder gives := by
  unfold Takes Ensures at h ⊢
  rw [run_bind, run_get]
  exact h

theorem takes_onGraph {span : Span} {operation : GraphM α} (hspan : given span)
    (h : GraphM.Takes rules operation binder.graph R) :
    Takes rules given (onGraph span operation) binder R := by
  unfold Takes Ensures
  rw [run_onGraph]
  generalize hrun : operation.run.run binder.graph = outcome
  obtain ⟨e | a, graph⟩ := outcome
  · obtain ⟨hsteps, he⟩ := Ensures.of_error h hrun
    exact ⟨⟨hsteps, rfl⟩, Diagnostic.reports_ofGraphError he hspan⟩
  · obtain ⟨hsteps, ha⟩ := Ensures.of_ok h hrun
    exact ⟨⟨hsteps, rfl⟩, ha⟩

/-- Remembering where a node was seen is a step. -/
theorem steps_setSpan {span : Span} (graph : Graph) (id : Nat) (hspan : rules.span span) :
    rules.Steps graph (graph.setSpan id span) := by
  refine .single (.annotate ⟨rfl, rfl, rfl, rfl, fun h => h, fun _ => .inl, fun hnone hsome => ?_,
    fun other hother => ?_⟩)
  · rw [hnone] at hsome
    cases hsome
  · refine (Option.or_eq_some_iff.mp hother).imp_right fun h => .inl ?_
    cases h.2
    exact hspan

theorem takes_setSpan {span : Span} {id : Nat} {R : Unit → Graph → Prop} (hspan : rules.span span)
    (h : ∀ graph, rules.Steps binder.graph graph → R ⟨⟩ graph) :
    Takes rules given (setSpan id span) binder R :=
  ensures_modify ⟨⟨steps_setSpan _ id hspan, rfl⟩, h _ (steps_setSpan _ id hspan)⟩

section

variable (hserves : rules.Serves classes known holds)
  (hrules : ∀ span, given span → rules.span span)

section

include hserves

/-- The node of a kind over nodes with keys of expressions has the key of an expression. -/
theorem takes_register {kind : Kind} {ids : List Nat} {graph : Graph}
    (hcomposes : kind.Composes ids.length) (hids : ∀ id ∈ ids, graph.SpelledAt known id) :
    GraphM.Takes rules (GraphM.register kind ids) graph fun id next =>
      next.SpelledAt known id := by
  refine (GraphM.takes_register (hserves.expression graph kind ids hcomposes hids)).imp
    fun id next _ hid => spelledAt_of_find? hid (Kind.Composes.composed ?_ ?_).spelled
  · rwa [List.length_map]
  · exact List.forall_mem_map.mpr fun id hid => (hids id hid).2

theorem takes_symbol (value : Literal) (graph : Graph) :
    GraphM.Takes rules (GraphM.symbol value.render value.typeName) graph fun id next =>
      next.SpelledAt known id := by
  refine (GraphM.takes_symbol (hserves.leaf graph _ rfl)).imp
    fun id next _ hid => spelledAt_of_find? hid ?_
  exact Expression.key_ofLiteral value ▸ .atom (Expression.isAtom_ofLiteral value)

theorem takes_lowerAll {trees : List Tree}
    (h : ∀ tree ∈ trees, ∀ binder : Binder, binder.Meets known holds →
      Takes rules given (lower classes tree) binder fun id graph => graph.SpelledAt known id)
    (hmeets : binder.Meets known holds) :
    Takes rules given (lowerAll classes trees) binder fun ids graph =>
      ids.length = trees.length ∧ ∀ id ∈ ids, graph.SpelledAt known id := by
  induction trees generalizing binder with
  | nil => exact takes_pure ⟨rfl, nofun⟩
  | cons tree trees ih =>
    refine takes_bind (h tree List.mem_cons_self binder hmeets) fun id next hsteps hid => ?_
    refine takes_bind (ih (fun tree htree => h tree (List.mem_cons_of_mem _ htree))
      (hmeets.steps hserves hsteps)) fun ids last hmore hids => takes_pure ?_
    refine ⟨congrArg (· + 1) hids.1, ?_⟩
    simp only [List.forall_mem_cons]
    exact ⟨hid.steps hmore.graph, hids.2⟩

end

include hrules

theorem takes_node {span : Span} {operation : GraphM Nat} (hspan : given span)
    (h : GraphM.Takes rules operation binder.graph fun id graph => graph.SpelledAt known id) :
    Takes rules given (node span operation) binder fun id graph => graph.SpelledAt known id :=
  takes_bind (takes_onGraph hspan h) fun _ _ _ hid =>
    takes_bind (takes_setSpan (R := fun _ graph => graph.SpelledAt known _) (hrules span hspan)
      fun _ hsteps => hid.steps hsteps) fun _ _ _ hid => takes_pure hid

include hserves

theorem takes_classNamed? {span : Span} (hspan : given span) (hgraph : holds binder.graph)
    (qualified : String) :
    Takes rules given (classNamed? classes qualified span) binder fun found graph =>
      ∀ id, found = some id → graph.SpelledAt known id := by
  unfold classNamed?
  split
  · exact takes_pure nofun
  · next type htype =>
    obtain ⟨hname, hknown⟩ := hserves.findClass qualified type htype
    refine takes_bind (takes_onGraph hspan (GraphM.takes_classRefFor hname
      fun next id hsteps hid =>
        hserves.ready next id _ (hserves.steps _ _ hgraph hsteps) hknown hid))
      fun id next _ hid => ?_
    have hid : next.graph.SpelledAt known id := by
      refine spelledAt_of_find? hid ?_
      rw [Kind.classKey, String.toList_append]
      exact .ref hknown
    refine takes_bind (takes_setSpan (R := fun _ graph => graph.SpelledAt known id)
      (hrules span hspan) fun _ hsteps => hid.steps hsteps) fun _ _ _ hid => takes_pure ?_
    rintro _ ⟨⟩
    exact hid

theorem takes_lowerName {span : Span} (hspan : given span) (hmeets : binder.Meets known holds)
    {name : String} (hname : IsName name.toList) :
    Takes rules given (lowerName classes name span) binder fun id graph =>
      graph.SpelledAt known id := by
  refine takes_get_bind ?_
  split
  · next id hid =>
    exact takes_bind (takes_setSpan (R := fun _ graph => graph.SpelledAt known id)
      (hrules span hspan) fun _ hsteps => (hmeets.named name id hname hid).steps hsteps)
      fun _ _ _ hid => takes_pure hid
  · refine takes_get_bind (takes_bind (takes_classNamed? hserves hrules hspan hmeets.graph _)
      fun found next _ hfound => ?_)
    split
    · exact takes_pure (hfound _ rfl)
    · exact takes_throw (Diagnostic.reports_error hspan (by decide) _)

theorem takes_wholeClass? {tree : Tree} (hspan : given tree.span) (hgraph : holds binder.graph) :
    Takes rules given (wholeClass? classes tree) binder fun found graph =>
      ∀ id, found = some id → graph.SpelledAt known id := by
  unfold wholeClass?
  split
  · unfold classPath?
    split
    · exact takes_pure nofun
    · refine takes_get_bind (takes_get_bind ?_)
      split
      · exact takes_pure nofun
      · exact takes_classNamed? hserves hrules hspan hgraph _
  · exact takes_pure nofun

theorem takes_coalesce {span : Span} (hspan : given span) {lhs rhs : Nat} {graph : Graph}
    (hlhs : graph.SpelledAt known lhs) (hrhs : graph.SpelledAt known rhs) :
    GraphM.Takes rules (coalesce lhs rhs span) graph fun id next => next.SpelledAt known id := by
  refine GraphM.takes_bind (takes_symbol hserves .null graph) fun null next hnull hid => ?_
  refine GraphM.takes_bind (takes_register hserves (.binary _) ?_)
    fun isNull last hcompare hisNull => ?_
  · simp only [List.forall_mem_cons]
    exact ⟨hlhs.steps hnull, hid, nofun⟩
  have hsteps := (steps_setSpan last null (hrules span hspan)).trans
    (steps_setSpan (last.setSpan null span) isNull (hrules span hspan))
  refine GraphM.takes_bind (R := fun _ next => rules.Steps last next)
    (ensures_modify ⟨hsteps, hsteps⟩) fun _ reached hmore _ => ?_
  refine takes_register hserves .ternary ?_
  have hall := hnull.trans (hcompare.trans hmore)
  simp only [List.forall_mem_cons]
  exact ⟨hisNull.steps hmore, hrhs.steps hall, hlhs.steps hall, nofun⟩

/-- A tree over nodes of its parts. -/
theorem takes_assemble {tree : Tree} {ids : List Nat} (hspan : given tree.span)
    (hmeets : binder.Meets known holds) (hnames : ∀ name ∈ tree.names, IsName name.toList)
    (hlength : ids.length = tree.parts.length)
    (hids : ∀ id ∈ ids, binder.graph.SpelledAt known id) :
    Takes rules given (assemble classes tree ids) binder fun id graph =>
      graph.SpelledAt known id := by
  cases tree with
  | literal span value => exact takes_node hrules hspan (takes_symbol hserves value _)
  | ident span name =>
    exact takes_lowerName hserves hrules hspan hmeets (hnames name (List.mem_singleton_self name))
  | field span receiver name =>
    refine takes_node hrules hspan (takes_register hserves ?_ hids)
    rw [hlength]
    exact .field (hnames name.text (List.mem_append_right _ (List.mem_singleton_self _)))
  | call span target name args =>
    refine takes_node hrules hspan (takes_register hserves ?_ hids)
    rw [hlength]
    exact .call (hnames name.text (List.mem_append_right _ List.mem_cons_self)) _
  | unary span op operand =>
    exact takes_node hrules hspan (takes_register hserves (hlength ▸ .unary op) hids)
  | binary span op lhs rhs =>
    exact takes_node hrules hspan (takes_register hserves (hlength ▸ .binary op) hids)
  | ternary span predicate ifTrue ifFalse =>
    exact takes_node hrules hspan (takes_register hserves (hlength ▸ .ternary) hids)
  | coalesce span lhs rhs =>
    obtain ⟨l, r, rfl⟩ := List.length_eq_two.mp hlength
    exact takes_node hrules hspan (takes_coalesce hserves hrules hspan
      (hids l List.mem_cons_self) (hids r (List.mem_cons_of_mem _ List.mem_cons_self)))
  | group span inner =>
    obtain ⟨id, rfl⟩ := List.length_eq_one_iff.mp hlength
    exact takes_pure (hids id List.mem_cons_self)

/-- The key of a lowered tree is that of an expression. -/
theorem takes_lower {tree : Tree} (hspans : tree.Spans given)
    (hnames : ∀ name ∈ tree.names, IsName name.toList) (hmeets : binder.Meets known holds) :
    Takes rules given (lower classes tree) binder fun id graph => graph.SpelledAt known id := by
  induction tree using Tree.partsInduction generalizing binder with
  | step tree ih =>
    rw [lower_eq]
    refine takes_bind (takes_wholeClass? hserves hrules hspans.span hmeets.graph)
      fun found next hsteps hfound => ?_
    split
    · exact takes_pure (hfound _ rfl)
    · have hmeets := hmeets.steps hserves hsteps
      refine takes_bind (takes_lowerAll hserves (fun part hpart binder hmeets => ?_) hmeets)
        fun ids last hmore hids => ?_
      · exact ih part hpart (hspans.parts part hpart)
          (fun name hname => hnames name (Tree.mem_names_of_mem_parts hpart hname)) hmeets
      · exact takes_assemble hserves hrules hspans.span (hmeets.steps hserves hmore) hnames hids.1
          hids.2

theorem takes_bindTree {tree : Tree} (hspans : tree.Spans given)
    (hnames : ∀ name ∈ tree.names, IsName name.toList) (hmeets : binder.Meets known holds) :
    Takes rules given (bindTree classes tree) binder fun _ _ => True := by
  refine takes_bind (takes_lower hserves hrules hspans hnames hmeets)
    fun root next hsteps hroot => ?_
  refine takes_bind (takes_onGraph hspans.span (GraphM.takes_bindRoot root))
    fun _ last hmark _ => ?_
  have hgraph := (hmeets.steps hserves (hsteps.trans hmark)).graph
  have hroot := (hroot.steps hmark.graph).1
  exact takes_bind (takes_onGraph hspans.span (hserves.classify _ root hgraph hroot))
    fun _ _ _ _ => takes_pure trivial

/-- Binding a source takes steps, and its error is about a span of the source or about a node. -/
theorem takes_bindSource {source : String}
    (hlex : ∀ e ∈ (parse source).lexErrors, given e.span)
    (hresult : ∀ e, (parse source).result = .error e → given e.span)
    (htree : ∀ tree, (parse source).result = .ok tree → tree.Spans given)
    (hmeets : binder.Meets known holds) :
    Takes rules given (bindSource classes source) binder fun _ _ => True := by
  unfold bindSource
  dsimp only
  split
  · next e errors herrors =>
    refine takes_throw (Diagnostic.reports_error (hlex e ?_) (by decide) none)
    rw [herrors]
    exact List.mem_cons_self
  · next e _ herror =>
    exact takes_throw (Diagnostic.reports_error (hresult e herror) (by decide) none)
  · next tree _ hparsed =>
    exact takes_bindTree hserves hrules (htree tree hparsed) (isName_of_parse hparsed) hmeets

end

end BinderM
end BindingPlan
