import BindingPlan.Proofs.Graph.Linked
import BindingPlan.Proofs.Graph.Settling

/-!
# Graphs that grow by requests

What can be done with a graph from outside is a sequence of requests, and of notes where nodes were
seen. Which requests come is left open. Apart from look-ups and from sealing, all of them build:
they register nodes, import classes and annotate nodes; so an invariant of graphs is shown for what
builds a graph and for these.

Main results:

* `Graph.Terms`, `Graph.Grown`: what may be asked, and graphs that grow by asking it.
* `Graph.Terms.typed`: nodes are registered over nodes, and over as many as their kinds need.
* `Graph.Grown.keeps`: what building, resolving, classifying and sealing keep.
-/

namespace BindingPlan
namespace Graph

/-- What may be asked of a graph. -/
structure Terms where
  /-- The kinds of nodes without parts. -/
  leaf : Kind → Prop
  /-- The kinds of nodes over others. -/
  composed : Graph → Kind → List Nat → Prop
  /-- The types whose classes are imported on demand. -/
  type : ClassType → Prop
  /-- The registries for look-ups. -/
  registry : ClassRegistry → Prop
  /-- Whether look-ups may fail. -/
  fails : Prop

namespace Terms

variable {terms wanted : Terms} {graph next : Graph} {id : Nat}

/-- A node of the kind may be registered over the children. -/
def Writes (terms : Terms) (graph : Graph) (kind : Kind) (children : List Nat) : Prop :=
  terms.leaf kind ∧ children = [] ∨ terms.composed graph kind children

/-- The request may be made. -/
def Permits (terms : Terms) (graph : Graph) : Request → Prop
  | .register kind children => terms.Writes graph kind children
  | .declareVariable name _ => terms.leaf (.identifier name)
  | .symbol text type => terms.leaf (.symbol text type)
  | .addImport _ qualified => ∀ shortName, terms.leaf (.classRef shortName qualified)
  | .classRefFor type => terms.type type
  | .resolve classes id => terms.registry classes ∧
      (terms.fails ∨ ((GraphM.resolve classes id).run.run graph).1.isOk = true)
  | .classify classes id => terms.registry classes ∧
      (terms.fails ∨ ((GraphM.classify classes id).run.run graph).1.isOk = true)
  | .seal classes => terms.registry classes ∧
      (terms.fails ∨ ((GraphM.sealGraph classes).run.run graph).1.isOk = true)
  | .bind _ | .plan => True

/-- Nodes are registered over nodes, and over as many as their kinds need. -/
def typed : Terms where
  leaf kind := kind.Accepts 0
  composed graph kind children :=
    kind.Accepts children.length ∧ ∀ child ∈ children, child < graph.size
  type _ := True
  registry _ := True
  fails := True

/-- All that is allowed is wanted. -/
structure Below (terms wanted : Terms) : Prop where
  leaf : ∀ kind, terms.leaf kind → wanted.leaf kind
  composed : ∀ graph kind children, terms.composed graph kind children →
    wanted.composed graph kind children
  type : ∀ type, terms.type type → wanted.type type
  registry : ∀ classes, terms.registry classes → wanted.registry classes
  fails : terms.fails → wanted.fails

/-! ## Building -/

/-- One change by building. -/
inductive Builds (terms : Terms) (graph : Graph) : Graph → Prop where
  | register {kind : Kind} {children : List Nat} (isOpen : graph.isSealed = false)
      (isNew : graph.find? (kind.key (children.map graph.keyOf)) = none)
      (writes : terms.Writes graph kind children) :
      Builds terms graph (graph.push (.new kind (kind.key (children.map graph.keyOf)) children))
  | addClass {type : ClassType} (shortName : String) (imports : ImportTable)
      (isOpen : graph.isSealed = false)
      (isNew : graph.find? (Kind.classKey type.name) = none) (known : terms.type type) :
      Builds terms graph
        (({ graph with imports := imports } : Graph).push (GraphM.classNode shortName type))
  | annotate {change : Node → Node} (id : Nat)
      (annotates : ∀ node, { change node with
        span := node.span, declaredType := node.declaredType, isBinding := node.isBinding } =
          node) :
      Builds terms graph (graph.modify id change)
  | importClass (imports : ImportTable) : Builds terms graph { graph with imports := imports }
  | advance (sealed? : Option Sealed) (same : sealed?.isSome = graph.isSealed) :
      Builds terms graph { graph with sealed? := sealed? }

theorem Builds.mono (h : terms.Builds graph next) (hbelow : terms.Below wanted) :
    wanted.Builds graph next := by
  cases h with
  | register isOpen isNew writes =>
    exact .register isOpen isNew
      (writes.imp (fun h => ⟨hbelow.leaf _ h.1, h.2⟩) (hbelow.composed _ _ _))
  | addClass shortName imports isOpen isNew known =>
    exact .addClass shortName imports isOpen isNew (hbelow.type _ known)
  | annotate id annotates => exact .annotate id annotates
  | importClass imports => exact .importClass imports
  | advance sealed? same => exact .advance sealed? same

end Terms

open Terms Operation

variable {terms wanted : Terms} {first graph last : Graph}

section

variable {relation : Graph → Graph → Prop} [IsPreorder Graph relation]
  (hbuilds : ∀ graph next, terms.Builds graph next → relation graph next)

include hbuilds

theorem Terms.keeps_register {kind : Kind} (hleaf : terms.leaf kind) :
    Operation.Keeps relation (GraphM.register kind []) := by
  intro graph
  obtain ⟨_, -, hrun⟩ | ⟨-, hrun⟩ | ⟨hopen, hnew, hrun⟩ := GraphM.register_cases kind [] graph
  · rw [hrun]
    exact refl_of relation graph
  · rw [hrun]
    exact refl_of relation graph
  · rw [hrun]
    exact hbuilds _ _ (.register hopen hnew (.inl ⟨hleaf, rfl⟩))

omit [IsPreorder Graph relation] in
theorem Terms.keeps_annotate {change : Node → Node} (id : Nat)
    (annotates : ∀ node, { change node with
      span := node.span, declaredType := node.declaredType, isBinding := node.isBinding } =
        node) :
    Operation.Keeps relation (GraphM.modifyNode id change) :=
  keeps_modify fun _ => hbuilds _ _ (.annotate id annotates)

theorem Terms.keeps_declareVariable {name : String} (hleaf : terms.leaf (.identifier name))
    (type : String) : Operation.Keeps relation (GraphM.declareVariable name type) :=
  keeps_bind (keeps_register hbuilds hleaf) fun id => keeps_bind keeps_ensureOpen fun _ =>
    keeps_bind (keeps_annotate hbuilds id fun _ => rfl) fun _ => keeps_pure _

theorem Terms.keeps_symbol {text type : String} (hleaf : terms.leaf (.symbol text type)) :
    Operation.Keeps relation (GraphM.symbol text type) :=
  keeps_bind (keeps_register hbuilds hleaf) fun id =>
    keeps_bind (keeps_annotate hbuilds id fun _ => rfl) fun _ => keeps_pure _

theorem Terms.keeps_addImport (wanted : String) {qualified : String}
    (hleaf : ∀ shortName, terms.leaf (.classRef shortName qualified)) :
    Operation.Keeps relation (GraphM.addImport wanted qualified) := by
  have hclassRef (name : String) : Operation.Keeps relation (GraphM.classRef name qualified) :=
    keeps_bind (keeps_register hbuilds (hleaf name)) fun id =>
      keeps_bind (keeps_annotate hbuilds id fun _ => rfl) fun _ => keeps_pure _
  refine keeps_bind keeps_ensureOpen fun _ graph => ?_
  rw [GraphM.run_bind, GraphM.run_get]
  dsimp only
  rw [GraphM.run_bind, GraphM.run_set]
  exact trans_of relation (hbuilds graph _ (.importClass _)) (hclassRef _ _)

theorem Terms.keeps_classRefFor {type : ClassType} (htype : terms.type type) :
    Operation.Keeps relation (GraphM.classRefFor type) := by
  intro graph
  obtain ⟨_, -, hrun⟩ | ⟨-, -, hrun⟩ | ⟨hopen, hnew, shortName, imports, hrun⟩ :=
    GraphM.classRefFor_cases type graph
  · rw [hrun]
    exact refl_of relation graph
  · rw [hrun]
    exact refl_of relation graph
  · rw [hrun]
    exact hbuilds _ _ (.addClass shortName imports hopen hnew htype)

theorem Terms.keeps_bindRoot (id : Nat) : Operation.Keeps relation (GraphM.bind id) :=
  keeps_bind keeps_ensureOpen fun _ => keeps_annotate hbuilds id fun _ => rfl

theorem Terms.keeps_plan : Operation.Keeps relation GraphM.plan :=
  Graph.keeps_plan fun _ sealed? same => hbuilds _ _ (.advance sealed? same)

/-- What building keeps, every request keeps that neither resolves nor classifies nodes, and what
resolving, classifying and sealing keep, all requests keep. -/
theorem Terms.keeps_request
    (hresolve : ∀ graph classes id, terms.Permits graph (.resolve classes id) →
      relation graph ((GraphM.resolve classes id).run.run graph).2)
    (hclassify : ∀ graph classes id, terms.Permits graph (.classify classes id) →
      relation graph ((GraphM.classify classes id).run.run graph).2)
    (hseal : ∀ graph classes, terms.Permits graph (.seal classes) →
      relation graph ((GraphM.sealGraph classes).run.run graph).2)
    {request : Request} (h : terms.Permits graph request) :
    relation graph (request.run graph) := by
  cases request with
  | register kind children =>
    show relation graph ((GraphM.register kind children).run.run graph).2
    obtain ⟨_, -, hrun⟩ | ⟨-, hrun⟩ | ⟨hopen, hnew, hrun⟩ :=
      GraphM.register_cases kind children graph
    · rw [hrun]
      exact refl_of relation graph
    · rw [hrun]
      exact refl_of relation graph
    · rw [hrun]
      exact hbuilds _ _ (.register hopen hnew h)
  | declareVariable name type => exact keeps_declareVariable hbuilds h type graph
  | symbol text type => exact keeps_symbol hbuilds h graph
  | addImport wanted qualified => exact keeps_addImport hbuilds wanted h graph
  | classRefFor type => exact keeps_classRefFor hbuilds h graph
  | bind id => exact keeps_bindRoot hbuilds id graph
  | resolve classes id => exact hresolve graph classes id h
  | classify classes id => exact hclassify graph classes id h
  | «seal» classes => exact hseal graph classes h
  | plan => exact keeps_plan hbuilds graph

end

/-! ## Growing -/

/-- Requests that may be made, and notes where nodes were seen, lead from the first graph to the
other one, whether they succeed or not. -/
inductive Grown (terms : Terms) (first : Graph) : Graph → Prop where
  | refl : Grown terms first first
  | request {graph : Graph} (grown : Grown terms first graph) (request : Request)
      (h : terms.Permits graph request) : Grown terms first (request.run graph)
  | setSpan {graph : Graph} (grown : Grown terms first graph) (id : Nat) (span : Span) :
      Grown terms first (graph.setSpan id span)

theorem Grown.trans (h : Grown terms first graph) (h' : Grown terms graph last) :
    Grown terms first last := by
  induction h' with
  | refl => exact h
  | request _ request hrequest ih => exact ih.request request hrequest
  | setSpan _ id span ih => exact ih.setSpan id span

instance : IsPreorder Graph (Grown terms) where
  refl _ := .refl
  trans _ _ _ := .trans

section

variable {relation : Graph → Graph → Prop} [IsPreorder Graph relation]

/-- What building, resolving, classifying and sealing keep holds between the first and the last
graph. -/
theorem Grown.keeps (h : Grown terms first graph)
    (hbuilds : ∀ graph next, terms.Builds graph next → relation graph next)
    (hresolve : ∀ graph classes id, terms.Permits graph (.resolve classes id) →
      relation graph ((GraphM.resolve classes id).run.run graph).2)
    (hclassify : ∀ graph classes id, terms.Permits graph (.classify classes id) →
      relation graph ((GraphM.classify classes id).run.run graph).2)
    (hseal : ∀ graph classes, terms.Permits graph (.seal classes) →
      relation graph ((GraphM.sealGraph classes).run.run graph).2) :
    relation first graph := by
  induction h with
  | refl => exact refl_of relation first
  | request _ request h ih =>
    exact trans_of relation ih (keeps_request hbuilds hresolve hclassify hseal h)
  | setSpan _ id span ih =>
    refine trans_of relation ih (hbuilds _ _ ?_)
    exact .annotate id fun _ => rfl

end

/-- What holds of a graph still holds. -/
def Upholds (holds : Graph → Prop) (graph next : Graph) : Prop :=
  holds graph → holds next

instance (holds : Graph → Prop) : IsPreorder Graph (Upholds holds) where
  refl _ := id
  trans _ _ _ h h' := h' ∘ h

/-- Nodes are registered over nodes. -/
def Terms.Refers (terms : Terms) : Prop :=
  ∀ graph kind children, terms.composed graph kind children → ∀ child ∈ children, child < graph.size

/-- Requests over nodes take steps, and keep links in order. -/
theorem Grown.steps (h : Grown terms first graph) (hrefers : terms.Refers)
    (hfirst : first.Linked) :
    (Rules.any fun _ => True).Steps first graph := by
  induction h with
  | refl => exact .refl
  | @request graph _ request hpermits ih =>
    refine ih.trans (request.steps_run (hfirst.steps ih) ?_)
    cases request with
    | register kind children =>
      obtain ⟨-, rfl⟩ | hcomposed := hpermits
      · exact fun _ hchild => nomatch hchild
      · exact hrefers graph kind children hcomposed
    | _ => trivial
  | setSpan _ id span ih =>
    refine ih.tail (.annotate ⟨rfl, rfl, rfl, rfl, fun h => h, fun _ => .inl, fun hnone hsome => ?_,
      fun _ _ => .inr (.inl trivial)⟩)
    rw [hnone] at hsome
    cases hsome

theorem Grown.linked (h : Grown terms first graph) (hrefers : terms.Refers)
    (hfirst : first.Linked) : graph.Linked :=
  hfirst.steps (h.steps hrefers hfirst)

end Graph
end BindingPlan
