import BindingPlan.Proofs.Graph.Effects

/-!
# What is known of a node stays known

Once a node has a type, or is known to be dynamic or constant, no operation changes that. And the
nodes that come about while types are looked up have their types from the start: so when every node
that there was has been classified, every node has a type, and classifying the others registers none
any more. Sealing therefore leaves no node that is not classified.

Main results:

* `Graph.Remembers`, `Graph.Settles`: what is known stays known; and all new nodes have types.
* `GraphM.admits_settles`: resolving and classifying settle a graph.
* `GraphM.classified_of_run_classifyAll`: when all nodes were classified, none is left.
-/

namespace BindingPlan
namespace Graph

variable {graph next last : Graph} {node : Node} {i id : Nat}

/-- Types and classes of nodes that are known stay what they are. -/
structure Remembers (graph next : Graph) : Prop where
  resolvedType : ∀ i type, (graph.node i).resolvedType = some type →
    (next.node i).resolvedType = some type
  dynamic : ∀ i dynamic, (graph.node i).dynamic = some dynamic →
    (next.node i).dynamic = some dynamic

theorem Remembers.refl (graph : Graph) : graph.Remembers graph :=
  ⟨fun _ _ h => h, fun _ _ h => h⟩

theorem Remembers.trans (h : graph.Remembers next) (h' : next.Remembers last) :
    graph.Remembers last :=
  ⟨fun i type hi => h'.resolvedType i type (h.resolvedType i type hi),
    fun i dynamic hi => h'.dynamic i dynamic (h.dynamic i dynamic hi)⟩

instance : IsPreorder Graph Remembers where
  refl := .refl
  trans _ _ _ := .trans

theorem Remembers.resolved (h : graph.Remembers next)
    (hi : (graph.node i).resolvedType.isSome) : (next.node i).resolvedType.isSome := by
  obtain ⟨type, htype⟩ := Option.isSome_iff_exists.mp hi
  exact Option.isSome_of_eq_some (h.resolvedType i type htype)

theorem Remembers.classified (h : graph.Remembers next) (hi : (graph.node i).dynamic.isSome) :
    (next.node i).dynamic.isSome := by
  obtain ⟨dynamic, hdynamic⟩ := Option.isSome_iff_exists.mp hi
  exact Option.isSome_of_eq_some (h.dynamic i dynamic hdynamic)

/-- No type and no class is forgotten by a change that leaves both as they are in the node. -/
theorem Remembers.modify {change : Node → Node} (h : graph.Remembers next)
    (htype : ∀ type, (graph.node id).resolvedType = some type →
      (change (next.node id)).resolvedType = some type)
    (hdynamic : ∀ dynamic, (graph.node id).dynamic = some dynamic →
      (change (next.node id)).dynamic = some dynamic) :
    graph.Remembers (next.modify id change) := by
  constructor
  · intro i type hi
    rw [node_modify]
    split
    · next heq =>
      obtain ⟨rfl, -⟩ := heq
      exact htype type hi
    · exact h.resolvedType i type hi
  · intro i dynamic hi
    rw [node_modify]
    split
    · next heq =>
      obtain ⟨rfl, -⟩ := heq
      exact hdynamic dynamic hi
    · exact h.dynamic i dynamic hi

theorem remembers_push : graph.Remembers (graph.push node) := by
  have hlt {β : Type} (part : Node → Option β) (hdefault : part default = none) {i : Nat} {b : β}
      (hi : part (graph.node i) = some b) : i < graph.size := by
    by_contra hge
    rw [node_of_size_le (Nat.le_of_not_lt hge), hdefault] at hi
    cases hi
  constructor
  · intro i type hi
    rwa [eq_of_push Node.resolvedType (fun _ _ => rfl) (hlt Node.resolvedType rfl hi)]
  · intro i dynamic hi
    rwa [eq_of_push Node.dynamic (fun _ _ => rfl) (hlt Node.dynamic rfl hi)]

theorem remembers_replaceChild (parent position child : Nat) :
    graph.Remembers (graph.replaceChild parent position child) := by
  constructor
  · intro i type hi
    rwa [resolvedType_replaceChild]
  · intro i dynamic hi
    rwa [eq_of_replaceChild Node.dynamic (fun _ _ => rfl) fun _ _ => rfl]

theorem allows_remembers : Allows Remembers where
  push := fun _ _ _ _ => remembers_push
  annotate := fun _ _ _ h =>
    (Remembers.refl _).modify (fun _ => (h _).resolvedType _) fun _ => (h _).dynamic _
  replaceChild := fun _ => remembers_replaceChild
  importClass := fun _ _ => ⟨fun _ _ h => h, fun _ _ h => h⟩
  freeze := fun _ _ => ⟨fun _ _ h => h, fun _ _ h => h⟩
  resolved := fun _ _ hnone h => by
    refine h.modify ?_ (h.dynamic _)
    intro _ htype
    cases hnone.symm.trans htype
  classified := fun _ _ hnone h => by
    refine h.modify (h.resolvedType _) ?_
    intro _ hdynamic
    cases hnone.symm.trans hdynamic

/-! ## Settling -/

/-- What is known stays known, and nodes are only added with their types. -/
structure Settles (graph next : Graph) : Prop where
  remembers : graph.Remembers next
  size_le : graph.size ≤ next.size
  resolved : ∀ i, graph.size ≤ i → i < next.size → (next.node i).resolvedType.isSome

theorem Settles.refl (graph : Graph) : graph.Settles graph :=
  ⟨.refl graph, Nat.le_refl _, fun _ hle hlt => absurd hlt (Nat.not_lt_of_le hle)⟩

theorem Settles.trans (h : graph.Settles next) (h' : next.Settles last) :
    graph.Settles last where
  remembers := h.remembers.trans h'.remembers
  size_le := Nat.le_trans h.size_le h'.size_le
  resolved := by
    intro i hle hlt
    rcases Nat.lt_or_ge i next.size with hi | hi
    · exact h'.remembers.resolved (h.resolved i hle hi)
    · exact h'.resolved i hi hlt

instance : IsPreorder Graph Settles where
  refl := .refl
  trans _ _ _ := .trans

theorem Settles.modify {change : Node → Node} (h : graph.Settles next)
    (hremembers : graph.Remembers (next.modify id change))
    (hresolved : (next.node id).resolvedType.isSome →
      (change (next.node id)).resolvedType.isSome) :
    graph.Settles (next.modify id change) where
  remembers := hremembers
  size_le := by
    rw [size_modify]
    exact h.size_le
  resolved := by
    intro i hle hlt
    rw [size_modify] at hlt
    rw [node_modify]
    split
    · next heq =>
      obtain ⟨rfl, -⟩ := heq
      exact hresolved (h.resolved i hle hlt)
    · exact h.resolved i hle hlt

theorem settles_modify {change : Node → Node} (h : ∀ node, Node.Refines node (change node)) :
    graph.Settles (graph.modify id change) := by
  refine (Settles.refl graph).modify (allows_remembers.annotate graph id change h) ?_
  intro hresolved
  obtain ⟨type, htype⟩ := Option.isSome_iff_exists.mp hresolved
  exact Option.isSome_of_eq_some ((h _).resolvedType type htype)

theorem settles_push (h : node.resolvedType.isSome) : graph.Settles (graph.push node) where
  remembers := remembers_push
  size_le := by
    rw [size_push]
    exact Nat.le_succ _
  resolved := by
    intro i hle hlt
    rw [size_push] at hlt
    have hi : i = graph.size := by omega
    subst hi
    rwa [node_push_self]

theorem settles_replaceChild (parent position child : Nat) :
    graph.Settles (graph.replaceChild parent position child) where
  remembers := remembers_replaceChild parent position child
  size_le := Nat.le_of_eq size_replaceChild.symm
  resolved := fun _ hle hlt => absurd (size_replaceChild ▸ hlt) (Nat.not_lt_of_le hle)

theorem settles_imports (imports : ImportTable) :
    graph.Settles { graph with imports := imports } :=
  ⟨⟨fun _ _ h => h, fun _ _ h => h⟩, Nat.le_refl _,
    fun _ hle hlt => absurd hlt (Nat.not_lt_of_le hle)⟩

/-- Every node has a type. -/
def AllResolved (graph : Graph) : Prop :=
  ∀ i < graph.size, (graph.node i).resolvedType.isSome

/-- A graph that had the type of every node has it behind further changes. -/
theorem AllResolved.mono (hall : graph.AllResolved) (h : graph.Settles next) :
    next.AllResolved := by
  intro i hi
  rcases Nat.lt_or_ge i graph.size with hlt | hle
  · exact h.remembers.resolved (hall i hlt)
  · exact h.resolved i hle hi

end Graph

/-! ## Operations -/

namespace GraphM

open BindingPlan.Graph Operation

variable {classes : ClassRegistry} {graph next : Graph}

/-- The operation keeps what is known and adds no node without its type. -/
abbrev Settles {α : Type} (operation : GraphM α) : Prop :=
  Operation.Keeps Graph.Settles operation

/-- The node of a class that is imported on demand. -/
def classNode (shortName : String) (type : ClassType) : Node :=
  { Node.new (.classRef shortName type.name) (Kind.classKey type.name) [] with
    declaredType := some type.name, resolvedType := some type }

/-- A class that is imported on demand is found. -/
theorem find?_push_classNode {type : ClassType} (imports : ImportTable) (shortName : String)
    (hnew : graph.find? (Kind.classKey type.name) = none) :
    (({ graph with imports := imports } : Graph).push (classNode shortName type)).find?
      (Kind.classKey type.name) = some graph.size :=
  find?_push_self hnew

/-- A class without a node is imported on demand into an open graph. -/
theorem run_classRefFor_of_new {type : ClassType} (hopen : graph.isSealed = false)
    (hnew : graph.find? (Kind.classKey type.name) = none) :
    let named := graph.imports.nameFor type.name (TypeName.simple type.name)
    (classRefFor type).run.run graph = (.ok graph.size,
      ({ graph with imports := named.2 } : Graph).push (classNode named.1 type)) := by
  intro named
  unfold classRefFor
  rw [run_bind, run_get]
  simp only [hnew, hopen, Bool.false_eq_true, if_false]
  rw [run_bind, run_set]
  dsimp only
  show (do
    let id ← classRef named.1 type.name
    modifyNode id fun node => { node with resolvedType := node.resolvedType.or (some type) }
    return id : GraphM Nat).run.run { graph with imports := named.2 } = _
  obtain ⟨shortName, imports⟩ := named
  obtain ⟨_, hfound, -⟩ | ⟨hsealed, -⟩ | ⟨-, -, hpush⟩ :=
    register_cases (.classRef shortName type.name) [] { graph with imports := imports }
  · cases hfound.symm.trans hnew
  · cases hsealed.symm.trans hopen
  · unfold classRef
    rw [bind_assoc, run_bind_of_run hpush]
    refine congrArg (Prod.mk _) ((congrArg (fun graph : Graph => graph.modify _ _)
      (modify_push_self rfl)).trans (modify_push_self rfl))

/-- What importing a class on demand does, case by case. -/
theorem classRefFor_cases (type : ClassType) (graph : Graph) :
    (∃ id, graph.find? (Kind.classKey type.name) = some id ∧
      (classRefFor type).run.run graph = (.ok id, graph)) ∨
    (graph.isSealed = true ∧ graph.find? (Kind.classKey type.name) = none ∧
      (classRefFor type).run.run graph =
        (.error (.registerAfterSeal (Kind.classKey type.name)), graph)) ∨
    (graph.isSealed = false ∧ graph.find? (Kind.classKey type.name) = none ∧
      ∃ shortName imports, (classRefFor type).run.run graph =
        (.ok graph.size,
          ({ graph with imports := imports } : Graph).push (classNode shortName type))) := by
  cases hfound : graph.find? (Kind.classKey type.name) with
  | some id =>
    refine .inl ⟨id, rfl, ?_⟩
    unfold classRefFor
    rw [run_bind, run_get]
    simp only [hfound]
    rfl
  | none =>
    cases hsealed : graph.isSealed with
    | false => exact .inr (.inr ⟨rfl, rfl, _, _, run_classRefFor_of_new hsealed hfound⟩)
    | true =>
      refine .inr (.inl ⟨rfl, rfl, ?_⟩)
      unfold classRefFor
      rw [run_bind, run_get]
      simp only [hfound, hsealed, if_true]
      rfl

theorem finds_classRefFor (type : ClassType) (graph : Graph) :
    Finds (classRefFor type) graph (Kind.classKey type.name) := by
  intro id next hrun
  obtain ⟨found, hfound, h⟩ | ⟨-, -, h⟩ | ⟨-, hnew, shortName, imports, h⟩ :=
    classRefFor_cases type graph
  · cases h.symm.trans hrun
    exact hfound
  · cases h.symm.trans hrun
  · cases h.symm.trans hrun
    exact find?_push_classNode imports shortName hnew

theorem settles_classRefFor (type : ClassType) : Settles (classRefFor type) := by
  intro graph
  obtain ⟨_, _, h⟩ | ⟨_, _, h⟩ | ⟨_, _, shortName, imports, h⟩ := classRefFor_cases type graph
  · rw [h]
    exact .refl graph
  · rw [h]
    exact .refl graph
  · rw [h]
    exact (settles_imports imports).trans (settles_push rfl)

theorem settles_bind (id : Nat) : Settles (GraphM.bind id) :=
  keeps_bind keeps_ensureOpen fun _ => keeps_modify fun _ => settles_modify fun _ => .of_eq rfl

theorem settles_plan : Settles plan :=
  keeps_plan fun _ _ _ => ⟨⟨fun _ _ h => h, fun _ _ h => h⟩, Nat.le_refl _,
    fun _ hle hlt => absurd hlt (Nat.not_lt_of_le hle)⟩

theorem settles_moveToClass (id : Nat) (member : Member) (receiverType : ClassType)
    (isStatic : Bool) : Settles (moveToClass id member receiverType isStatic) := by
  unfold moveToClass
  split
  · exact keeps_bind (settles_classRefFor receiverType) fun ref =>
      keeps_modify fun _ => settles_replaceChild id 0 ref
  · exact keeps_pure _

theorem settles_readWrapper {id : Nat} (receiver : Nat) (name : String) (wrapper : Member)
    (hid : id < graph.size) :
    graph.Settles ((readWrapper id name wrapper receiver).run.run graph).2 := by
  obtain ⟨inner, _, h⟩ | ⟨_, h⟩ | ⟨_, _, h⟩ := readWrapper_cases receiver name wrapper hid
  · rw [h]
    exact settles_modify (Node.refines_readsWrapper wrapper _)
  · rw [h]
    exact .refl graph
  · rw [h]
    exact settles_push (Node.resolved_readsWrapper wrapper _ _)

theorem settles_splitWrapper (id : Nat) (name : String) (wrapper : Member) :
    Settles (splitWrapper classes id name wrapper) := by
  intro graph
  rw [splitWrapper_eq, run_bind, run_get]
  dsimp only
  unfold operand
  split
  · next receiver hreceiver =>
    have hid := lt_size_of_children (List.mem_of_getElem? hreceiver)
    rw [run_bind, run_pure]
    refine trans_of Graph.Settles (settles_readWrapper receiver name wrapper hid) ?_
    refine keeps_rest (fun inner => ?_) _ graph
    refine keeps_bind (keeps_modify fun _ => settles_replaceChild id 0 inner) fun _ => ?_
    refine keeps_bind (Graph.keeps_lookup id _) fun value => ?_
    exact keeps_bind (keeps_modify fun _ => settles_modify fun _ => .of_eq rfl) fun _ =>
      keeps_pure _
  · exact .refl graph

theorem admits_settles (classes : ClassRegistry) : Admits Graph.Settles classes where
  member := fun _ _ _ => settles_modify fun _ => .of_eq rfl
  moveToClass := settles_moveToClass
  splitWrapper := settles_splitWrapper
  resolved := fun id type hnone h =>
    h.modify (allows_remembers.resolved id type hnone h.remembers) fun _ => rfl
  classified := fun node dynamic hnone h =>
    h.modify (allows_remembers.classified node dynamic hnone h.remembers) id

/-! ## Types and classes that are known -/

/-- Resolving a node whose type is known gives that type. -/
theorem run_resolve_of_resolved {id : Nat} {type : ClassType}
    (h : (graph.node id).resolvedType = some type) :
    (resolve classes id).run.run graph = (.ok type, graph) := by
  unfold resolve
  rw [run_bind, run_get]
  dsimp only
  unfold resolveWithin
  rw [run_bind, run_get]
  dsimp only
  rw [h]
  rfl

/-- What is no node has no type. -/
theorem run_resolve_of_size_le {id : Nat} (h : graph.size ≤ id) :
    (resolve classes id).run.run graph =
      (.error (graph.resolutionError id (.untyped "")), graph) := by
  have hnode : graph.node id = default := node_of_size_le h
  have hkind : (resolveKind classes (resolveWithin classes graph.size) id).run.run graph =
      (.error (graph.resolutionError id (.untyped "")), graph) := by
    unfold resolveKind
    rw [run_bind, run_get]
    dsimp only
    rw [hnode]
    rfl
  unfold resolve
  rw [run_bind, run_get]
  dsimp only
  unfold resolveWithin
  rw [run_bind, run_get]
  dsimp only
  rw [hnode, show (default : Node).resolvedType = none from rfl]
  dsimp only
  rw [run_bind, hkind]

/-- Classifying a node that is classified gives what it is. -/
theorem run_classify_of_classified {id : Nat} {dynamic : Bool}
    (hresolved : (graph.node id).resolvedType.isSome)
    (hdynamic : (graph.node id).dynamic = some dynamic) :
    (classify classes id).run.run graph = (.ok dynamic, graph) := by
  obtain ⟨type, htype⟩ := Option.isSome_iff_exists.mp hresolved
  unfold classify
  rw [run_bind_of_run (run_resolve_of_resolved htype), run_bind, run_get]
  dsimp only
  unfold classifyWithin
  rw [run_bind, run_get]
  dsimp only
  rw [hdynamic]
  rfl

theorem run_classify_of_size_le {id : Nat} (h : graph.size ≤ id) :
    (classify classes id).run.run graph =
      (.error (graph.resolutionError id (.untyped "")), graph) := by
  unfold classify
  rw [run_bind, run_resolve_of_size_le h]

/-! ## Classifying all nodes -/

/-- Behind a look-up that succeeds, the node has the type that was given. -/
theorem resolved_of_run_resolveWithin {bound id : Nat} {type : ClassType} (hid : id < graph.size)
    (hrun : (resolveWithin classes bound id).run.run graph = (.ok type, next)) :
    (next.node id).resolvedType = some type := by
  have hsettles := ((admits_settles classes).resolveWithin bound id).of_run hrun
  cases bound with
  | zero => cases hrun
  | succ bound =>
    unfold resolveWithin at hrun
    rw [run_bind, run_get] at hrun
    dsimp only at hrun
    split at hrun
    · next htype =>
      cases hrun
      exact htype
    · obtain ⟨found, reached, hkind, hrun⟩ := exists_of_run_bind hrun
      obtain ⟨_, _, hset, hrun⟩ := exists_of_run_bind hrun
      cases hset
      cases hrun
      have hlt := Nat.lt_of_lt_of_le hid hsettles.size_le
      rw [size_modify] at hlt
      rw [node_modify_self hlt]

theorem resolved_of_run_resolve {id : Nat} {type : ClassType} (hid : id < graph.size)
    (hrun : (resolve classes id).run.run graph = (.ok type, next)) :
    (next.node id).resolvedType = some type := by
  unfold resolve at hrun
  rw [run_bind, run_get] at hrun
  exact resolved_of_run_resolveWithin hid hrun

theorem classified_of_run_classify {id : Nat} {dynamic : Bool} (hid : id < graph.size)
    (hrun : (classify classes id).run.run graph = (.ok dynamic, next)) :
    (next.node id).resolvedType.isSome ∧ (next.node id).dynamic = some dynamic := by
  have hsettles := ((admits_settles classes).classify id).of_run hrun
  obtain ⟨type, reached, hresolve, hrun⟩ := exists_of_run_bind hrun
  have htype := resolved_of_run_resolve hid hresolve
  have hmore : reached.Settles next :=
    (keeps_bind keeps_get fun _ => (admits_settles classes).classifyWithin _ id).of_run hrun
  refine ⟨hmore.remembers.resolved (Option.isSome_of_eq_some htype), ?_⟩
  rw [run_bind, run_get] at hrun
  dsimp only at hrun
  unfold classifyWithin at hrun
  rw [run_bind, run_get] at hrun
  dsimp only at hrun
  split at hrun
  · next hdynamic =>
    cases hrun
    exact hdynamic
  · obtain ⟨_, _, -, hrun⟩ := exists_of_run_bind hrun
    obtain ⟨_, _, -, hrun⟩ := exists_of_run_bind hrun
    obtain ⟨_, _, -, hrun⟩ := exists_of_run_bind hrun
    obtain ⟨_, _, hset, hrun⟩ := exists_of_run_bind hrun
    cases hset
    cases hrun
    have hlt := Nat.lt_of_lt_of_le hid hsettles.size_le
    rw [size_modify] at hlt
    rw [node_modify_self hlt]

/-- Every node that was there and is gone over is classified behind it. -/
theorem classified_of_run_classifyFrom {count id : Nat}
    (hrun : (classifyFrom classes count id).run.run graph = (.ok ⟨⟩, next)) {i : Nat}
    (hle : id ≤ i) (hlt : i < id + count) (hi : i < graph.size) :
    (next.node i).resolvedType.isSome ∧ (next.node i).dynamic.isSome := by
  induction count generalizing graph id with
  | zero => omega
  | succ count ih =>
    unfold classifyFrom at hrun
    rw [run_bind, run_get] at hrun
    dsimp only at hrun
    rw [if_pos (by omega)] at hrun
    obtain ⟨dynamic, reached, hclassify, hrun⟩ := exists_of_run_bind hrun
    rcases Nat.lt_or_eq_of_le hle with hgt | rfl
    · have hsettles := ((admits_settles classes).classify id).of_run hclassify
      exact ih hrun hgt (by omega) (Nat.lt_of_lt_of_le hi hsettles.size_le)
    · obtain ⟨hresolved, hdynamic⟩ := classified_of_run_classify hi hclassify
      have hsettles := ((admits_settles classes).classifyFrom count (id + 1)).of_run hrun
      exact ⟨hsettles.remembers.resolved hresolved,
        hsettles.remembers.classified (Option.isSome_of_eq_some hdynamic)⟩

section

variable {fails : Prop} {relation : Graph → Graph → Prop} [IsPreorder Graph relation]
  (hresolve : ∀ id, KeepsIf fails relation (resolve classes id))
  (hset : ∀ graph id dynamic,
    relation graph (graph.modify id fun node => { node with dynamic := some dynamic }))

include hresolve hset

/-- What resolving nodes and noting their classes keeps, classifying keeps. -/
theorem keepsIf_classifyWithin (bound id : Nat) :
    KeepsIf fails relation (classifyWithin classes bound id) := by
  induction bound generalizing id with
  | zero => exact (keeps_bind keeps_get fun _ => keeps_throw _).keepsIf
  | succ bound ih =>
    refine keepsIf_bind keeps_get.keepsIf fun graph => ?_
    split
    · exact (keeps_pure _).keepsIf
    · refine keepsIf_bind (hresolve id) fun _ => keepsIf_bind keeps_get.keepsIf fun _ => ?_
      refine keepsIf_bind (keepsIf_mapM ih _) fun children => ?_
      exact (keeps_bind (keeps_modify fun graph => hset graph id _) fun _ => keeps_pure _).keepsIf

theorem keepsIf_classify (id : Nat) : KeepsIf fails relation (classify classes id) :=
  keepsIf_bind (hresolve id) fun _ => keepsIf_bind keeps_get.keepsIf fun _ =>
    keepsIf_classifyWithin hresolve hset _ id

theorem keepsIf_classifyFrom (count id : Nat) :
    KeepsIf fails relation (classifyFrom classes count id) := by
  induction count generalizing id with
  | zero => exact (keeps_pure _).keepsIf
  | succ count ih =>
    refine keepsIf_bind keeps_get.keepsIf fun graph => ?_
    split
    · exact keepsIf_bind (keepsIf_classify hresolve hset id) fun _ => ih (id + 1)
    · exact (keeps_pure _).keepsIf

theorem keepsIf_classifyAll : KeepsIf fails relation (classifyAll classes) :=
  keepsIf_bind keeps_get.keepsIf fun _ =>
    keepsIf_bind (keepsIf_classifyFrom hresolve hset _ 0) fun _ =>
      keepsIf_bind keeps_get.keepsIf fun _ => keepsIf_classifyFrom hresolve hset _ _

end

/-- No node is added to a graph that has the type of every node. -/
def AddsNone (graph next : Graph) : Prop :=
  graph.AllResolved → next.AllResolved ∧ next.size = graph.size

instance : IsPreorder Graph AddsNone where
  refl _ := fun h => ⟨h, rfl⟩
  trans _ _ _ h h' := fun hall => ⟨(h' (h hall).1).1, ((h' (h hall).1).2).trans (h hall).2⟩

theorem addsNone_resolve (id : Nat) : Operation.Keeps AddsNone (resolve classes id) := by
  intro graph hall
  rcases Nat.lt_or_ge id graph.size with hid | hid
  · obtain ⟨type, htype⟩ := Option.isSome_iff_exists.mp (hall id hid)
    rw [run_resolve_of_resolved htype]
    exact ⟨hall, rfl⟩
  · rw [run_resolve_of_size_le hid]
    exact ⟨hall, rfl⟩

theorem addsNone_classifyFrom (count id : Nat) :
    Operation.Keeps AddsNone (classifyFrom classes count id) := by
  refine fun graph => keepsIf_classifyFrom (fun id => (addsNone_resolve id).keepsIf)
    (fun graph id dynamic hall => ?_) count id graph (.inl trivial)
  refine ⟨fun i hi => ?_, size_modify _ _⟩
  rw [size_modify] at hi
  rw [eq_of_modify Node.resolvedType rfl]
  exact hall i hi

/-- When all nodes were classified, those that were registered on the way included, every node has
its type and its class. -/
theorem classified_of_run_classifyAll
    (hrun : (classifyAll classes).run.run graph = (.ok ⟨⟩, next)) {i : Nat} (hi : i < next.size) :
    (next.node i).resolvedType.isSome ∧ (next.node i).dynamic.isSome := by
  unfold classifyAll at hrun
  rw [run_bind, run_get] at hrun
  dsimp only at hrun
  obtain ⟨_, reached, hfirst, hrun⟩ := exists_of_run_bind hrun
  rw [run_bind, run_get] at hrun
  have hsettles := ((admits_settles classes).classifyFrom _ _).of_run hfirst
  have hsettles' := ((admits_settles classes).classifyFrom _ _).of_run hrun
  have hwritten {i : Nat} (hi : i < graph.size) :=
    classified_of_run_classifyFrom hfirst (Nat.zero_le i) (by omega) hi
  -- behind the first round every node has a type, so the second one finds all nodes
  have hall : reached.AllResolved := by
    intro i hi
    rcases Nat.lt_or_ge i graph.size with hlt | hle
    · exact (hwritten hlt).1
    · exact hsettles.resolved i hle hi
  have hsize : next.size = reached.size := ((addsNone_classifyFrom _ _).of_run hrun hall).2
  rw [hsize] at hi
  rcases Nat.lt_or_ge i graph.size with hlt | hle
  · exact ⟨hsettles'.remembers.resolved (hwritten hlt).1,
      hsettles'.remembers.classified (hwritten hlt).2⟩
  · exact classified_of_run_classifyFrom hrun hle (by omega) hi

/-- What resolving nodes, noting their classes and freezing a graph with all types keeps, sealing
keeps. -/
theorem keepsIf_sealGraph {fails : Prop} {relation : Graph → Graph → Prop}
    [IsPreorder Graph relation] (hresolve : ∀ id, KeepsIf fails relation (resolve classes id))
    (hset : ∀ graph id dynamic,
      relation graph (graph.modify id fun node => { node with dynamic := some dynamic }))
    (hfreeze : ∀ (graph : Graph) state, graph.AllResolved →
      relation graph { graph with sealed? := some state }) :
    KeepsIf fails relation (sealGraph classes) := by
  refine keepsIf_bind keeps_get.keepsIf fun graph => ?_
  dsimp only
  split
  · exact fun graph _ => refl_of relation graph
  · refine fun graph => keepsIf_bind_of (keepsIf_classifyAll hresolve hset graph) (fun _ h => h) ?_
    intro _ classified hrun h _
    refine trans_of relation h ?_
    rw [run_bind, run_get]
    dsimp only
    split
    · exact refl_of relation classified
    · exact hfreeze classified _ fun i hi => (classified_of_run_classifyAll hrun hi).1

end GraphM

end BindingPlan
