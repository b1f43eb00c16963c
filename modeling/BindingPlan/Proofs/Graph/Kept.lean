import BindingPlan.Graph.Seal
import BindingPlan.Proofs.Graph.Run

/-!
# What operations keep

A relation between graphs holds across every operation, wherever it stops, if it allows for the few
changes that operations are made of: a node is pushed, a node is annotated, a link moves, a class is
imported, the reads go on.

Types and classes need care. The type of a node is set when all look-ups below it are done, and this
only if the node had none at first; likewise its class. So a relation may rely on the node having
had none where the look-up began, and not on what it has when the type is set.

Main results:

* `Graph.Admits`: what a relation has to allow for so that resolving and classifying keep it.
* `Graph.Admits.resolve`, `Graph.Admits.classify`, `Graph.Admits.sealGraph`: they do.
* `Graph.Allows`: what a relation has to allow for so that every operation keeps it.
-/

namespace BindingPlan

/-- The same expression, with a declared type if it had one, and what is known of its type and its
class is still known. -/
structure Node.Refines (node next : Node) : Prop where
  key : next.key = node.key
  resolvedType : ∀ type, node.resolvedType = some type → next.resolvedType = some type
  dynamic : ∀ dynamic, node.dynamic = some dynamic → next.dynamic = some dynamic
  declaredType : node.declaredType.isSome → next.declaredType.isSome

/-- Spans, members and bindings can be annotated at will. -/
theorem Node.Refines.of_eq {node next : Node}
    (h : { next with span := node.span, isBinding := node.isBinding, member := node.member } =
      node) : node.Refines next where
  key := (congrArg Node.key h :)
  resolvedType := fun _ htype => (congrArg Node.resolvedType h :).trans htype
  dynamic := fun _ hdynamic => (congrArg Node.dynamic h :).trans hdynamic
  declaredType := fun hsome => (congrArg Node.declaredType h :) ▸ hsome

/-- So can declared types, but not taken away. -/
theorem Node.refines_declare (node : Node) (type : String) :
    node.Refines { node with declaredType := some type } :=
  ⟨rfl, fun _ htype => htype, fun _ hdynamic => hdynamic, fun _ => rfl⟩

/-- The same node but for its span, its declared type and its mark as a binding. -/
structure Node.Annotated (node next : Node) : Prop where
  kind : next.kind = node.kind
  key : next.key = node.key
  children : next.children = node.children
  resolvedType : next.resolvedType = node.resolvedType
  member : next.member = node.member
  dynamic : next.dynamic = node.dynamic

theorem Node.Annotated.of_eq {node next : Node}
    (h : { next with
      span := node.span, declaredType := node.declaredType, isBinding := node.isBinding } = node) :
    node.Annotated next :=
  ⟨(congrArg Node.kind h :), (congrArg Node.key h :), (congrArg Node.children h :),
    (congrArg Node.resolvedType h :), (congrArg Node.member h :), (congrArg Node.dynamic h :)⟩

/-- How the node that reads an observable wrapper is annotated, unless its type is known. -/
def Node.readsWrapper (wrapper : Member) (span : Option Span) (node : Node) : Node :=
  if node.resolvedType.isNone then
    { node with
      resolvedType := some wrapper.type
      member := some wrapper
      span := node.span.or span }
  else node

section
variable (wrapper : Member) (span : Option Span) (node : Node)

@[simp] theorem Node.kind_readsWrapper : (node.readsWrapper wrapper span).kind = node.kind := by
  unfold readsWrapper
  split <;> rfl

@[simp] theorem Node.children_readsWrapper :
    (node.readsWrapper wrapper span).children = node.children := by
  unfold readsWrapper
  split <;> rfl

end

/-- A node whose type is known stays as it is. -/
theorem Node.readsWrapper_eq_self {node : Node} (h : node.resolvedType.isSome) (wrapper : Member)
    (span : Option Span) : node.readsWrapper wrapper span = node :=
  if_neg (by rwa [Option.isNone_iff_eq_none, ← ne_eq, ← Option.isSome_iff_ne_none])

/-- The type of a wrapper is set only where none is known. -/
theorem Node.refines_readsWrapper (wrapper : Member) (span : Option Span) (node : Node) :
    node.Refines (node.readsWrapper wrapper span) := by
  unfold readsWrapper
  split
  · next hnone =>
    refine ⟨rfl, fun type htype => ?_, fun _ hdynamic => hdynamic, fun hsome => hsome⟩
    rw [htype] at hnone
    cases hnone
  · exact .of_eq rfl

/-- What registering does, case by case. -/
theorem GraphM.register_cases (kind : Kind) (children : List Nat) (graph : Graph) :
    let key := kind.key (children.map graph.keyOf)
    (∃ id, graph.find? key = some id ∧
      (register kind children).run.run graph = (.ok id, graph)) ∨
    (graph.isSealed = true ∧
      (register kind children).run.run graph = (.error (.registerAfterSeal key), graph)) ∨
    (graph.isSealed = false ∧ graph.find? key = none ∧ (register kind children).run.run graph =
      (.ok graph.size, graph.push (.new kind key children))) := by
  intro key
  unfold register
  rw [run_bind, run_get]
  dsimp only
  split
  · next id hid => exact .inl ⟨id, hid, rfl⟩
  · next hnone =>
    split
    · next hsealed => exact .inr (.inl ⟨hsealed, rfl⟩)
    · next hopen => exact .inr (.inr ⟨Bool.eq_false_iff.mpr hopen, hnone, rfl⟩)

/-- A node that is found is registered already. -/
theorem GraphM.run_register_of_find? {graph : Graph} {kind : Kind} {children : List Nat} {id : Nat}
    (h : graph.find? (kind.key (children.map graph.keyOf)) = some id) :
    (register kind children).run.run graph = (.ok id, graph) := by
  unfold register
  rw [run_bind, run_get]
  simp only [h]
  rfl

namespace Graph

open GraphM Operation

/-! ## Resolving and classifying -/

/-- The relation allows for the changes that resolving and classifying make. -/
structure Admits (relation : Graph → Graph → Prop) (classes : ClassRegistry) : Prop where
  member : ∀ graph id member,
    relation graph (graph.modify id fun node => { node with member := some member })
  moveToClass : ∀ id member receiverType isStatic,
    Keeps relation (GraphM.moveToClass id member receiverType isStatic)
  splitWrapper : ∀ id name wrapper, Keeps relation (GraphM.splitWrapper classes id name wrapper)
  resolved : ∀ {graph next} id type, (graph.node id).resolvedType = none → relation graph next →
    relation graph (next.modify id fun node => { node with resolvedType := some type })
  classified : ∀ {graph next} id dynamic, (graph.node id).dynamic = none → relation graph next →
    relation graph (next.modify id fun node => { node with dynamic := some dynamic })

variable {α : Type} {relation : Graph → Graph → Prop} {classes : ClassRegistry}

section

variable [IsPreorder Graph relation]

theorem keeps_lookup (id : Nat) (result : Except ResolveError α) :
    Keeps relation (lookup id result) := by
  cases result with
  | ok value => exact keeps_pure value
  | error cause => exact keeps_bind keeps_get fun _ => keeps_throw _

theorem keeps_operand (node : Node) (position : Nat) :
    Keeps relation (operand node position) := by
  unfold operand
  split
  · exact keeps_pure _
  · exact keeps_throw _

theorem keeps_isClassRef (id : Nat) : Keeps relation (isClassRef id) :=
  keeps_bind keeps_get fun _ => keeps_pure _

theorem keeps_ensureOpen : Keeps relation ensureOpen := by
  refine keeps_bind keeps_get fun graph => ?_
  split
  · exact keeps_throw _
  · exact keeps_pure _

omit [IsPreorder Graph relation] in
/-- A part of a node is set behind an operation. -/
theorem keeps_bind_set {x : GraphM α} {graph : Graph} {id : Nat} {change : α → Node → Node}
    (hx : Keeps relation x)
    (hset : ∀ a next, relation graph next → relation graph (next.modify id (change a))) :
    relation graph ((do
      let a ← x
      modifyNode id (change a)
      return a).run.run graph).2 := by
  have hnext := hx graph
  rw [GraphM.run_bind]
  generalize x.run.run graph = outcome at hnext
  obtain ⟨_ | a, next⟩ := outcome
  · exact hnext
  · exact hset a next hnext

namespace Admits

variable (h : Admits relation classes)

include h

section

variable {resolveChild : Nat → GraphM ClassType} (hchild : ∀ id, Keeps relation (resolveChild id))

include hchild

theorem resolveField (id : Nat) (name : String) :
    Keeps relation (GraphM.resolveField classes resolveChild id name) := by
  refine keeps_bind keeps_get fun graph => keeps_bind (keeps_operand _ 0) fun receiver => ?_
  refine keeps_bind (hchild receiver) fun _ => keeps_bind (keeps_isClassRef receiver) fun _ => ?_
  refine keeps_bind (keeps_lookup id _) fun member => ?_
  refine keeps_bind (h.moveToClass id member _ _) fun _ => ?_
  split
  · exact h.splitWrapper id name member
  · exact keeps_bind (keeps_modify fun _ => h.member _ id member) fun _ => keeps_pure _

theorem resolveCall (id : Nat) (name : String) :
    Keeps relation (GraphM.resolveCall classes resolveChild id name) := by
  refine keeps_bind keeps_get fun graph => keeps_bind (keeps_operand _ 0) fun target => ?_
  refine keeps_bind (hchild target) fun _ => keeps_bind (keeps_mapM hchild _) fun args => ?_
  refine keeps_bind (keeps_isClassRef target) fun _ => ?_
  refine keeps_bind (keeps_lookup id _) fun member => ?_
  refine keeps_bind (h.moveToClass id member _ _) fun _ => ?_
  exact keeps_bind (keeps_modify fun _ => h.member _ id member) fun _ => keeps_pure _

theorem resolveKind (id : Nat) : Keeps relation (GraphM.resolveKind classes resolveChild id) := by
  refine keeps_bind keeps_get fun graph => ?_
  have hoperand (position : Nat) :
      Keeps relation (operand (graph.node id) position >>= resolveChild) :=
    keeps_bind (keeps_operand _ position) hchild
  dsimp only
  split
  · split
    · exact keeps_lookup id _
    · exact keeps_lookup id _
  · exact keeps_lookup id _
  · exact keeps_lookup id _
  · exact h.resolveField hchild id _
  · exact h.resolveCall hchild id _
  · exact keeps_bind (hoperand 0) fun _ => keeps_bind (hoperand 1) fun _ => keeps_pure _
  · exact keeps_bind (keeps_mapM hchild _) fun _ => keeps_pure _
  · exact keeps_bind (keeps_mapM hchild _) fun _ => keeps_pure _
  · exact keeps_bind (keeps_mapM hchild _) fun _ => keeps_pure _
  · exact hoperand 0
  · refine keeps_bind (hoperand 0) fun _ => keeps_bind (keeps_operand _ 1) fun whenTrue => ?_
    refine keeps_bind (hchild whenTrue) fun _ => keeps_bind (hoperand 2) fun _ => ?_
    exact keeps_bind keeps_get fun _ => keeps_pure _

end

theorem resolveWithin (bound id : Nat) :
    Keeps relation (GraphM.resolveWithin classes bound id) := by
  induction bound generalizing id with
  | zero => exact keeps_bind keeps_get fun _ => keeps_throw _
  | succ bound ih =>
    intro graph
    unfold GraphM.resolveWithin
    rw [GraphM.run_bind, GraphM.run_get]
    dsimp only
    split
    · exact refl_of relation graph
    · next hnone =>
      exact keeps_bind_set (h.resolveKind ih id) fun type _ => h.resolved id type hnone

theorem resolve (id : Nat) : Keeps relation (GraphM.resolve classes id) :=
  keeps_bind keeps_get fun _ => h.resolveWithin _ id

theorem classifyWithin (bound id : Nat) :
    Keeps relation (GraphM.classifyWithin classes bound id) := by
  induction bound generalizing id with
  | zero => exact keeps_bind keeps_get fun _ => keeps_throw _
  | succ bound ih =>
    intro graph
    unfold GraphM.classifyWithin
    rw [GraphM.run_bind, GraphM.run_get]
    dsimp only
    split
    · exact refl_of relation graph
    · next hnone =>
      have hchildren : Keeps relation (do
          let _ ← GraphM.resolve classes id
          let node := (← get).node id
          let children ← node.children.mapM (GraphM.classifyWithin classes bound)
          return kindIsDynamic node.kind node.member children) :=
        keeps_bind (h.resolve id) fun _ => keeps_bind keeps_get fun _ =>
          keeps_bind (keeps_mapM ih _) fun _ => keeps_pure _
      have hset := keeps_bind_set hchildren fun dynamic _ => h.classified id dynamic hnone
      simp only [bind_assoc, pure_bind] at hset
      exact hset

theorem classify (id : Nat) : Keeps relation (GraphM.classify classes id) :=
  keeps_bind (h.resolve id) fun _ => keeps_bind keeps_get fun _ => h.classifyWithin _ id

theorem classifyFrom (count id : Nat) :
    Keeps relation (GraphM.classifyFrom classes count id) := by
  induction count generalizing id with
  | zero => exact keeps_pure _
  | succ count ih =>
    refine keeps_bind keeps_get fun graph => ?_
    split
    · exact keeps_bind (h.classify id) fun _ => ih (id + 1)
    · exact keeps_pure _

theorem classifyAll : Keeps relation (GraphM.classifyAll classes) :=
  keeps_bind keeps_get fun _ => keeps_bind (h.classifyFrom _ 0) fun _ =>
    keeps_bind keeps_get fun _ => h.classifyFrom _ _

/-- Sealing classifies, and freezes the graph if that succeeds. -/
theorem sealGraph (hsealed : ∀ graph state, relation graph { graph with sealed? := some state }) :
    Keeps relation (GraphM.sealGraph classes) := by
  refine keeps_bind keeps_get fun graph => ?_
  dsimp only
  split
  · exact fun graph => refl_of relation graph
  · refine keeps_bind h.classifyAll fun _ graph => ?_
    rw [GraphM.run_bind, GraphM.run_get]
    dsimp only
    split
    · exact refl_of relation graph
    · exact hsealed graph _

end Admits

end

section

variable [IsPreorder Graph relation]

/-- Planning changes how far the reads have come. -/
theorem keeps_plan (h : ∀ (graph : Graph) sealed?, sealed?.isSome = graph.isSealed →
    relation graph { graph with sealed? := sealed? }) : Keeps relation GraphM.plan := by
  have hrequire : Keeps relation GraphM.requireSealed := by
    refine keeps_bind keeps_get fun graph => ?_
    split
    · exact keeps_pure _
    · exact keeps_throw _
  refine keeps_bind hrequire fun state => ?_
  dsimp only
  refine keeps_bind (keeps_modify fun graph => h graph _ Option.isSome_map) fun _ => ?_
  split
  · exact keeps_pure _
  · exact keeps_bind keeps_get fun _ => keeps_throw _

end

/-! ## All operations -/

/-- The relation allows for the changes that all operations are made of. -/
structure Allows (relation : Graph → Graph → Prop) : Prop where
  push : ∀ graph kind key children, relation graph (graph.push (.new kind key children))
  annotate : ∀ graph id change, (∀ node, Node.Refines node (change node)) →
    relation graph (graph.modify id change)
  replaceChild : ∀ graph parent position child,
    relation graph (graph.replaceChild parent position child)
  importClass : ∀ (graph : Graph) imports, relation graph { graph with imports := imports }
  freeze : ∀ (graph : Graph) sealed?, relation graph { graph with sealed? := sealed? }
  resolved : ∀ {graph next} id type, (graph.node id).resolvedType = none → relation graph next →
    relation graph (next.modify id fun node => { node with resolvedType := some type })
  classified : ∀ {graph next} id dynamic, (graph.node id).dynamic = none → relation graph next →
    relation graph (next.modify id fun node => { node with dynamic := some dynamic })

namespace Allows

variable [IsPreorder Graph relation] (h : Allows relation)

include h

omit [IsPreorder Graph relation] in
theorem modifyNode {change : Node → Node} (hchange : ∀ node, Node.Refines node (change node))
    (id : Nat) : Keeps relation (GraphM.modifyNode id change) :=
  keeps_modify fun graph => h.annotate graph id change hchange

omit [IsPreorder Graph relation] in
theorem declareType (type : String) (id : Nat) :
    Keeps relation
      (GraphM.modifyNode id fun node => { node with declaredType := some type }) :=
  keeps_modify fun graph => h.annotate graph id _ fun node => node.refines_declare type

omit [IsPreorder Graph relation] in
theorem setSpan (graph : Graph) (id : Nat) (span : Span) : relation graph (graph.setSpan id span) :=
  h.annotate graph id _ fun _ => .of_eq rfl

theorem register (kind : Kind) (children : List Nat) :
    Keeps relation (GraphM.register kind children) := by
  intro graph
  obtain ⟨id, -, hrun⟩ | ⟨-, hrun⟩ | ⟨-, -, hrun⟩ := register_cases kind children graph
  · rw [hrun]
    exact refl_of relation graph
  · rw [hrun]
    exact refl_of relation graph
  · rw [hrun]
    exact h.push graph _ _ _

theorem symbol (text type : String) : Keeps relation (GraphM.symbol text type) :=
  keeps_bind (h.register _ _) fun _ =>
    keeps_bind (h.declareType _ _) fun _ => keeps_pure _

theorem declareVariable (name type : String) :
    Keeps relation (GraphM.declareVariable name type) :=
  keeps_bind (h.register _ _) fun _ => keeps_bind keeps_ensureOpen fun _ =>
    keeps_bind (h.declareType _ _) fun _ => keeps_pure _

theorem classRef (shortName qualified : String) :
    Keeps relation (GraphM.classRef shortName qualified) :=
  keeps_bind (h.register _ _) fun _ =>
    keeps_bind (h.declareType _ _) fun _ => keeps_pure _

theorem addImport (wanted qualified : String) :
    Keeps relation (GraphM.addImport wanted qualified) := by
  refine keeps_bind keeps_ensureOpen fun _ graph => ?_
  rw [GraphM.run_bind, run_get]
  dsimp only
  rw [GraphM.run_bind, run_set]
  dsimp only
  exact trans_of relation (h.importClass graph _) (h.classRef _ qualified _)

theorem classRefFor (type : ClassType) : Keeps relation (GraphM.classRefFor type) := by
  intro graph
  unfold GraphM.classRefFor
  rw [GraphM.run_bind, run_get]
  dsimp only
  split
  · exact refl_of relation graph
  · split
    · exact refl_of relation graph
    · have hrefines (node : Node) :
          node.Refines { node with resolvedType := node.resolvedType.or (some type) } :=
        ⟨rfl, fun _ htype => Option.or_eq_some_iff.mpr (.inl htype), fun _ hdynamic => hdynamic,
          fun hsome => hsome⟩
      have hnext : Keeps relation do
          let id ← GraphM.classRef
            (graph.imports.nameFor type.name (TypeName.simple type.name)).1 type.name
          GraphM.modifyNode id fun node =>
            { node with resolvedType := node.resolvedType.or (some type) }
          return id :=
        keeps_bind (h.classRef _ _) fun id =>
          keeps_bind (h.modifyNode hrefines id) fun _ => keeps_pure _
      rw [GraphM.run_bind, run_set]
      dsimp only
      exact trans_of relation (h.importClass graph _) (hnext _)

theorem bind (id : Nat) : Keeps relation (GraphM.bind id) :=
  keeps_bind keeps_ensureOpen fun _ =>
    keeps_modify fun graph => h.annotate graph id _ fun _ => .of_eq rfl

theorem moveToClass (id : Nat) (member : Member) (receiverType : ClassType) (isStatic : Bool) :
    Keeps relation (GraphM.moveToClass id member receiverType isStatic) := by
  unfold GraphM.moveToClass
  split
  · exact keeps_bind (h.classRefFor receiverType) fun ref =>
      keeps_modify fun graph => h.replaceChild graph id 0 ref
  · exact keeps_pure _

theorem splitWrapper (classes : ClassRegistry) (id : Nat) (name : String) (wrapper : Member) :
    Keeps relation (GraphM.splitWrapper classes id name wrapper) := by
  refine keeps_bind keeps_get fun graph => keeps_bind (keeps_operand _ 0) fun receiver => ?_
  refine keeps_bind (h.register _ _) fun inner => keeps_bind keeps_get fun _ => ?_
  refine keeps_bind (h.modifyNode (fun node => ?_) inner) fun _ => ?_
  · exact node.refines_readsWrapper wrapper _
  refine keeps_bind (keeps_modify fun graph => h.replaceChild graph id 0 inner) fun _ => ?_
  refine keeps_bind (keeps_lookup id _) fun value => ?_
  exact keeps_bind (keeps_modify fun graph => h.annotate graph id _ fun _ => .of_eq rfl) fun _ =>
    keeps_pure _

theorem admits (classes : ClassRegistry) : Admits relation classes where
  member := fun graph id _ => h.annotate graph id _ fun _ => .of_eq rfl
  moveToClass := h.moveToClass
  splitWrapper := h.splitWrapper classes
  resolved := h.resolved
  classified := h.classified

theorem sealGraph (classes : ClassRegistry) : Keeps relation (GraphM.sealGraph classes) :=
  (h.admits classes).sealGraph fun graph state => h.freeze graph (some state)

theorem plan : Keeps relation GraphM.plan :=
  keeps_plan fun graph sealed? _ => h.freeze graph sealed?

end Allows

/-- The relation allows for what binding a source asks of a graph. -/
structure AllowsBinding (relation : Graph → Graph → Prop) (classes : ClassRegistry) : Prop where
  register : ∀ kind children, kind.isClassRef = false →
    Keeps relation (GraphM.register kind children)
  symbol : ∀ text type, Keeps relation (GraphM.symbol text type)
  classRefFor : ∀ type, Keeps relation (GraphM.classRefFor type)
  setSpan : ∀ graph id span, relation graph (graph.setSpan id span)
  bind : ∀ id, Keeps relation (GraphM.bind id)
  classify : ∀ id, Keeps relation (GraphM.classify classes id)

theorem Allows.binding [IsPreorder Graph relation] (h : Allows relation)
    (classes : ClassRegistry) : AllowsBinding relation classes where
  register kind children _ := h.register kind children
  symbol := h.symbol
  classRefFor := h.classRefFor
  setSpan := h.setSpan
  bind := h.bind
  classify := (h.admits classes).classify

end Graph
end BindingPlan
