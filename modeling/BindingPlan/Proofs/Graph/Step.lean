import BindingPlan.Proofs.Class.Registry
import BindingPlan.Proofs.Graph.Node
import Mathlib.Logic.Relation

/-!
# What operations do to a graph

Whatever is done with a graph, and whether it fails or not, the graph changes by a few kinds of
steps: a node is registered, an annotation of a node is set, the first child of a node is moved to a
class or to a wrapper, a class is imported, or the graph is frozen. Each step states what holds when
it is taken, so that an invariant of graphs is shown for these steps once.

Which expressions are registered, which types are named and which spans are given is up to those who
use a graph, and so is where links may move; `Graph.Rules` leaves it open.

Main results:

* `Graph.Rules.Step`, `Graph.Rules.Steps`: one step, and a sequence of steps.
* `GraphM.takes_resolve`, `GraphM.takes_classify`, `GraphM.takes_sealGraph`: resolving, classifying
  and sealing take steps only, and a resolution error names the span of a node.
-/

namespace BindingPlan
namespace Graph

/-- What comes into a graph from outside, and what may be done with it. -/
structure Rules where
  /-- The names of types that nodes may resolve to. -/
  typeName : String → Prop
  /-- The kinds that may be registered over children. -/
  expression : Graph → Kind → List Nat → Prop
  /-- Children are nodes. -/
  children_lt : ∀ {graph kind children}, expression graph kind children →
    ∀ child ∈ children, child < graph.size
  /-- Whether accesses that are marked as unwrapping are registered, and not only come about when an
  access is split. -/
  unwraps : Prop
  unwraps_of_expression : ∀ {graph name children}, expression graph (.field name true) children →
    unwraps
  /-- The children over which a type may be set. -/
  ready : Graph → List Nat → Prop
  /-- Whether links may move. -/
  moves : Prop
  /-- Whether a walk may run into a cycle. -/
  cycles : Prop
  /-- The spans that nodes are given. -/
  span : Span → Prop

namespace Rules

variable {rules : Rules} {graph next last : Graph} {i id : Nat}

/-- A node with other annotations. A type is set only over children that are ready, and never
forgotten; a new span is given from outside or taken over from a node. -/
structure Annotates (rules : Rules) (graph : Graph) (node next : Node) : Prop where
  kind : next.kind = node.kind
  key : next.key = node.key
  children : next.children = node.children
  parents : next.parents = node.parents
  resolved : node.resolvedType.isSome → next.resolvedType.isSome
  typeName : ∀ type, next.resolvedType = some type →
    node.resolvedType = some type ∨ rules.typeName type.name
  ready : node.resolvedType = none → next.resolvedType.isSome → rules.ready graph node.children
  span : ∀ span, next.span = some span →
    node.span = some span ∨ rules.span span ∨ ∃ i, (graph.node i).span = some span

/-- Declared types, members, bindings and classes can be annotated at will. -/
theorem Annotates.of_eq {node next : Node}
    (h : { next with
      declaredType := node.declaredType, isBinding := node.isBinding, member := node.member,
      dynamic := node.dynamic } = node) : rules.Annotates graph node next where
  kind := (congrArg Node.kind h :)
  key := (congrArg Node.key h :)
  children := (congrArg Node.children h :)
  parents := (congrArg Node.parents h :)
  resolved := fun hnode => (congrArg Node.resolvedType h :).symm ▸ hnode
  typeName := fun _ htype => .inl ((congrArg Node.resolvedType h :).symm.trans htype)
  ready := fun hnone hsome => by
    rw [(congrArg Node.resolvedType h :).trans hnone] at hsome
    cases hsome
  span := fun _ hspan => .inl ((congrArg Node.span h :).symm.trans hspan)

/-- One step of a graph. -/
inductive Step (rules : Rules) (graph : Graph) : Graph → Prop where
  | register {kind : Kind} {children : List Nat} (isOpen : graph.isSealed = false)
      (isNew : graph.find? (kind.key (children.map graph.keyOf)) = none)
      (expression : rules.expression graph kind children) :
      Step rules graph (graph.push (.new kind (kind.key (children.map graph.keyOf)) children))
  | registerClass {shortName qualified : String} (isOpen : graph.isSealed = false)
      (isNew : graph.find? (Kind.classKey qualified) = none) :
      Step rules graph
        (graph.push (.new (.classRef shortName qualified) (Kind.classKey qualified) []))
  /-- The node that reads the wrapper which the receiver of a field access holds. -/
  | registerWrapper {id receiver : Nat} {name : String} {unwrap : Bool} {wrapper : Member}
      (isOpen : graph.isSealed = false) (kind : (graph.node id).kind = .field name unwrap)
      (hasReceiver : (graph.node id).children[0]? = some receiver)
      (isNew : graph.find? ((Kind.field name true).key [graph.keyOf receiver]) = none)
      (known : rules.typeName wrapper.type.name) (ready : rules.ready graph [receiver]) :
      Step rules graph (graph.push (Node.readsWrapper wrapper (graph.node id).span
        (.new (.field name true) ((Kind.field name true).key [graph.keyOf receiver]) [receiver])))
  | annotate {id : Nat} {change : Node → Node}
      (annotates : rules.Annotates graph (graph.node id) (change (graph.node id))) :
      Step rules graph (graph.modify id change)
  | moveToClass {id ref : Nat} {qualified : String} (moves : rules.moves)
      (marked : ∀ name, (graph.node id).kind = .field name true → rules.unwraps)
      (known : rules.typeName qualified)
      (found : graph.find? (Kind.classKey qualified) = some ref) :
      Step rules graph (graph.replaceChild id 0 ref)
  /-- The access reads the value of the wrapper, and no longer the wrapper itself. -/
  | moveToWrapper {id receiver inner : Nat} {name : String} {unwrap : Bool}
      (moves : rules.moves)
      (marked : ∀ name, (graph.node id).kind = .field name true → rules.unwraps)
      (kind : (graph.node id).kind = .field name unwrap)
      (hasReceiver : (graph.node id).children[0]? = some receiver)
      (found : graph.find? ((Kind.field name true).key [graph.keyOf receiver]) = some inner)
      (resolved : (graph.node inner).resolvedType.isSome) :
      Step rules graph (graph.replaceChild id 0 inner)
  | importClass (imports : ImportTable) : Step rules graph { graph with imports := imports }
  | freeze (sealed? : Option Sealed) : Step rules graph { graph with sealed? := sealed? }

/-- A sequence of steps. -/
abbrev Steps (rules : Rules) : Graph → Graph → Prop :=
  Relation.ReflTransGen rules.Step

/-! ## What steps keep -/

theorem Step.size_le (h : rules.Step graph next) : graph.size ≤ next.size := by
  cases h with
  | register | registerClass | registerWrapper =>
    rw [size_push]
    omega
  | annotate => exact Nat.le_of_eq (size_modify _ _).symm
  | moveToClass | moveToWrapper => exact Nat.le_of_eq size_replaceChild.symm
  | importClass | freeze => exact Nat.le_refl _

theorem Step.kind (h : rules.Step graph next) (hi : i < graph.size) :
    (next.node i).kind = (graph.node i).kind := by
  cases h with
  | register | registerClass | registerWrapper => exact kind_push hi
  | annotate h => exact eq_of_modify Node.kind h.kind i
  | moveToClass | moveToWrapper => exact kind_replaceChild
  | importClass | freeze => rfl

theorem Step.keyOf (h : rules.Step graph next) (hi : i < graph.size) :
    next.keyOf i = graph.keyOf i := by
  cases h with
  | register | registerClass | registerWrapper => exact eq_of_push Node.key (fun _ _ => rfl) hi
  | annotate h => exact keyOf_modify _ _ i
  | moveToClass | moveToWrapper => exact keyOf_replaceChild
  | importClass | freeze => rfl

theorem Step.resolved (h : rules.Step graph next)
    (hresolved : (graph.node i).resolvedType.isSome) : (next.node i).resolvedType.isSome := by
  have hi : i < graph.size := by
    by_contra hi
    rw [node_of_size_le (Nat.le_of_not_lt hi)] at hresolved
    cases hresolved
  cases h with
  | register | registerClass | registerWrapper =>
    rwa [resolvedType_push hi]
  | annotate h =>
    rw [node_modify]
    split
    · next hid =>
      obtain ⟨rfl, -⟩ := hid
      exact h.resolved hresolved
    · exact hresolved
  | moveToClass | moveToWrapper => rwa [resolvedType_replaceChild]
  | importClass | freeze => exact hresolved

/-- Links stay if they may not move. -/
theorem Step.children (h : rules.Step graph next) (hi : i < graph.size) (hmoves : ¬ rules.moves) :
    (next.node i).children = (graph.node i).children := by
  cases h with
  | register | registerClass | registerWrapper => exact children_push hi
  | annotate h => exact eq_of_modify Node.children h.children i
  | moveToClass moves | moveToWrapper moves => exact absurd moves hmoves
  | importClass | freeze => rfl

theorem Steps.size_le (h : rules.Steps graph next) : graph.size ≤ next.size := by
  induction h with
  | refl => exact Nat.le_refl _
  | tail _ hstep ih => exact Nat.le_trans ih hstep.size_le

theorem Steps.kind (h : rules.Steps graph next) (hi : i < graph.size) :
    (next.node i).kind = (graph.node i).kind := by
  induction h with
  | refl => rfl
  | tail hsteps hstep ih => exact (hstep.kind (Nat.lt_of_lt_of_le hi (size_le hsteps))).trans ih

theorem Steps.keyOf (h : rules.Steps graph next) (hi : i < graph.size) :
    next.keyOf i = graph.keyOf i := by
  induction h with
  | refl => rfl
  | tail hsteps hstep ih => exact (hstep.keyOf (Nat.lt_of_lt_of_le hi (size_le hsteps))).trans ih

theorem Steps.children (h : rules.Steps graph next) (hi : i < graph.size)
    (hmoves : ¬ rules.moves) : (next.node i).children = (graph.node i).children := by
  induction h with
  | refl => rfl
  | tail hsteps hstep ih =>
    exact (hstep.children (Nat.lt_of_lt_of_le hi (size_le hsteps)) hmoves).trans ih

theorem Steps.keeps (h : rules.Steps graph next) : graph.Keeps next :=
  keeps_of_keyOf h.size_le fun _ hi => h.keyOf hi

theorem Steps.resolved (h : rules.Steps graph next)
    (hresolved : (graph.node i).resolvedType.isSome) : (next.node i).resolvedType.isSome := by
  induction h with
  | refl => exact hresolved
  | tail _ hstep ih => exact hstep.resolved ih

/-- A property of graphs that each step keeps, a sequence of steps keeps. -/
theorem Steps.invariant {holds : Graph → Prop}
    (hstep : ∀ graph next, rules.Step graph next → holds graph → holds next)
    (h : rules.Steps graph next) (hgraph : holds graph) : holds next := by
  induction h with
  | refl => exact hgraph
  | tail _ h ih => exact hstep _ _ h ih

/-- Nodes have spans from outside. -/
theorem Steps.span (h : rules.Steps graph next)
    (hgraph : ∀ i span, (graph.node i).span = some span → rules.span span) :
    ∀ i span, (next.node i).span = some span → rules.span span := by
  let holds (graph : Graph) : Prop :=
    ∀ i span, (graph.node i).span = some span → rules.span span
  suffices hsteps : ∀ graph next, rules.Step graph next → holds graph → holds next from
    h.invariant hsteps hgraph
  intro graph next hstep h
  have hpush {node : Node} (hnode : ∀ span, node.span = some span → rules.span span) :
      ∀ i span, ((graph.push node).node i).span = some span → rules.span span :=
    forall_push Node.span (p := fun found => ∀ span, found = some span → rules.span span)
      (fun _ _ => rfl) hnode h
  cases hstep with
  | register | registerClass => exact hpush fun _ hspan => nomatch hspan
  | @registerWrapper id =>
    refine hpush fun span hspan => h id span ?_
    unfold Node.readsWrapper at hspan
    split at hspan
    · exact hspan
    · cases hspan
  | annotate annotates =>
    intro i span hspan
    rw [node_modify] at hspan
    split at hspan
    · next hid =>
      obtain ⟨rfl, -⟩ := hid
      obtain hold | hgiven | ⟨j, hother⟩ := annotates.span span hspan
      · exact h _ span hold
      · exact hgiven
      · exact h j span hother
    · exact h i span hspan
  | moveToClass | moveToWrapper =>
    intro i span hspan
    rw [span_replaceChild] at hspan
    exact h i span hspan
  | importClass | freeze => exact h

/-! ## Types and children -/

/-- Types of nodes are known, children are nodes, and what came about by a split is resolved. -/
structure Fits (rules : Rules) (graph : Graph) : Prop where
  typeName : ∀ i type, (graph.node i).resolvedType = some type → rules.typeName type.name
  children_lt : ∀ i, ∀ child ∈ (graph.node i).children, child < graph.size
  wrapper : ∀ i name, (graph.node i).kind = .field name true →
    (graph.node i).resolvedType.isSome ∨ rules.unwraps

theorem fits_empty : rules.Fits .empty where
  typeName := fun _ _ h => nomatch h
  children_lt := fun _ _ h => nomatch h
  wrapper := fun _ _ h => nomatch h

theorem Fits.push {node : Node} (h : rules.Fits graph)
    (htype : ∀ type, node.resolvedType = some type → rules.typeName type.name)
    (hchildren : ∀ child ∈ node.children, child < graph.size)
    (hwrapper : ∀ name, node.kind = .field name true →
      node.resolvedType.isSome ∨ rules.unwraps) : rules.Fits (graph.push node) where
  typeName :=
    forall_push Node.resolvedType
      (p := fun resolved => ∀ type, resolved = some type → rules.typeName type.name)
      (fun _ _ => rfl) htype h.typeName
  children_lt := by
    rw [size_push]
    refine forall_push Node.children
      (p := fun children => ∀ child ∈ children, child < graph.size + 1)
      (fun _ _ => rfl) (fun child hchild => ?_) fun i child hchild => ?_
    · exact Nat.lt_succ_of_lt (hchildren child hchild)
    · exact Nat.lt_succ_of_lt (h.children_lt i child hchild)
  wrapper :=
    forall_push (fun node => (node.kind, node.resolvedType))
      (p := fun part => ∀ name, part.1 = .field name true → part.2.isSome ∨ rules.unwraps)
      (fun _ _ => rfl) hwrapper h.wrapper

theorem Fits.replaceChild {parent position child : Nat} (h : rules.Fits graph)
    (hchild : child < graph.size) : rules.Fits (graph.replaceChild parent position child) where
  typeName := fun i type htype => h.typeName i type (resolvedType_replaceChild.symm.trans htype)
  children_lt := by
    intro i other hother
    rw [size_replaceChild]
    rw [children_replaceChild] at hother
    split at hother
    · rcases List.mem_or_eq_of_mem_set hother with hother | rfl
      · exact h.children_lt parent other hother
      · exact hchild
    · exact h.children_lt i other hother
  wrapper := by
    intro i name hkind
    rw [kind_replaceChild] at hkind
    rw [resolvedType_replaceChild]
    exact h.wrapper i name hkind

theorem typeName_readsWrapper {node : Node} {wrapper : Member} {span : Option Span}
    (h : rules.typeName wrapper.type.name)
    (hnode : ∀ type, node.resolvedType = some type → rules.typeName type.name) :
    ∀ type, (node.readsWrapper wrapper span).resolvedType = some type →
      rules.typeName type.name := by
  intro type htype
  unfold Node.readsWrapper at htype
  split at htype
  · cases htype
    exact h
  · exact hnode type htype

theorem Fits.step (h : rules.Fits graph) (hstep : rules.Step graph next) : rules.Fits next := by
  cases hstep with
  | register _ _ expression =>
    refine h.push (fun _ htype => nomatch htype) (rules.children_lt expression) ?_
    rintro name rfl
    exact .inr (rules.unwraps_of_expression expression)
  | registerClass =>
    exact h.push (fun _ htype => nomatch htype) (fun _ hchild => nomatch hchild)
      fun _ hkind => nomatch hkind
  | @registerWrapper id receiver _ _ _ _ _ hasReceiver _ known _ =>
    refine h.push (typeName_readsWrapper known fun _ htype => nomatch htype) ?_ ?_
    · intro child hchild
      cases List.mem_singleton.mp hchild
      exact h.children_lt id _ (List.mem_of_getElem? hasReceiver)
    · exact fun _ _ => .inl (Node.resolved_readsWrapper _ _ _)
  | annotate annotates =>
    constructor
    · intro i type htype
      rw [node_modify] at htype
      split at htype
      · next hid =>
        obtain ⟨rfl, -⟩ := hid
        exact (annotates.typeName type htype).elim (h.typeName _ type) fun h => h
      · exact h.typeName i type htype
    · intro i child hchild
      rw [eq_of_modify Node.children annotates.children] at hchild
      rw [size_modify]
      exact h.children_lt i child hchild
    · intro i name hkind
      rw [eq_of_modify Node.kind annotates.kind] at hkind
      exact (h.wrapper i name hkind).imp_left (Step.annotate annotates).resolved
  | moveToClass _ _ _ found => exact h.replaceChild (find?_eq_some_iff.mp found).1
  | moveToWrapper _ _ _ _ found => exact h.replaceChild (find?_eq_some_iff.mp found).1
  | importClass | freeze => exact ⟨h.typeName, h.children_lt, h.wrapper⟩

theorem Fits.steps (h : rules.Fits graph) (hsteps : rules.Steps graph next) : rules.Fits next :=
  hsteps.invariant (fun _ _ hstep h => h.step hstep) h

/-- Types may be set and links may move at will, and walks may run into cycles. -/
structure Free (rules : Rules) : Prop where
  ready : ∀ graph children, rules.ready graph children
  moves : rules.moves
  cycles : rules.cycles

/-- The look-ups in a registry give known types, and so do operators. -/
structure Covers (rules : Rules) (classes : ClassRegistry) : Prop where
  classes : ∀ c ∈ classes.classes, rules.typeName c.name
  builtin : ∀ name ∈ TypeName.builtin, rules.typeName name

theorem Covers.findClass {classes : ClassRegistry} (h : rules.Covers classes) {name : String}
    {type : ClassType} (hfind : classes.findClass name = .ok type) : rules.typeName type.name := by
  obtain ⟨c, hc, hname⟩ := classes.exists_mem_of_findClass hfind
  exact hname ▸ h.classes c hc

theorem Covers.findMember {classes : ClassRegistry} (h : rules.Covers classes) {owner : ClassType}
    {name : String} {staticOnly : Bool} {member : Member}
    (hmember : classes.findMember owner name staticOnly = .ok member) :
    rules.typeName member.type.name := by
  obtain ⟨name, hfind⟩ := classes.exists_of_findMember hmember
  exact h.findClass hfind

theorem Covers.findMethod {classes : ClassRegistry} (h : rules.Covers classes) {owner : ClassType}
    {name : String} {args : List ClassType} {staticOnly : Bool} {member : Member}
    (hmember : classes.findMethod owner name args staticOnly = .ok member) :
    rules.typeName member.type.name := by
  obtain ⟨name, hfind⟩ := classes.exists_of_findMethod hmember
  exact h.findClass hfind

end Rules
end Graph
end BindingPlan
