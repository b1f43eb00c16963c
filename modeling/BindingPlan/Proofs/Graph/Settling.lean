import BindingPlan.Proofs.Graph.Settled

/-!
# Resolving one node

A node over as many children as the builders give it is resolved in two stages. First its children
are resolved from left to right. Then its own type is settled: a look-up may fail and change
nothing, or else the node is touched, which moves its first child, notes its member, and may add the
class or the wrapper that it moves to. No other node changes its links, and none that has a type
changes its member.

Main results:

* `Kind.Accepts`, `Graph.Shaped`: nodes over as many children as their kinds need.
* `GraphM.settle`, `GraphM.run_resolveWithin`: the two stages.
* `GraphM.touched_settle`: settling a type touches one node only.
* `GraphM.member_of_run_settle`: a node that was settled as an access has its member.
-/

namespace BindingPlan

/-- The numbers of children that the builders give a node of the kind. -/
def Kind.Accepts : Kind → Nat → Prop
  | .identifier _, count | .classRef _ _, count | .symbol _ _, count => count = 0
  | .field _ _, count | .unary _, count => count = 1
  | .call _, count => 1 ≤ count
  | .binary _, count => count = 2
  | .ternary, count => count = 3

instance : DecidableRel Kind.Accepts
  | .identifier _, count | .classRef _ _, count | .symbol _ _, count =>
    inferInstanceAs (Decidable (count = 0))
  | .field _ _, count | .unary _, count => inferInstanceAs (Decidable (count = 1))
  | .call _, count => inferInstanceAs (Decidable (1 ≤ count))
  | .binary _, count => inferInstanceAs (Decidable (count = 2))
  | .ternary, count => inferInstanceAs (Decidable (count = 3))

namespace Graph

/-- Every node has as many children as its kind needs. -/
def Shaped (graph : Graph) : Prop :=
  ∀ i, (graph.node i).kind.Accepts (graph.node i).children.length

variable {graph next : Graph} {id i : Nat} {name : String}

/-! ## Touching a node -/

/-- One change on the way of settling the type of an access to a name. -/
inductive Touches (id : Nat) (name : String) (graph : Graph) : Graph → Prop where
  | addClass {shortName : String} {type : ClassType} (imports : ImportTable)
      (isNew : graph.find? (Kind.classKey type.name) = none) :
      Touches id name graph
        (({ graph with imports := imports } : Graph).push (GraphM.classNode shortName type))
  | moveToClass {type : ClassType} {ref : Nat}
      (found : graph.find? (Kind.classKey type.name) = some ref) :
      Touches id name graph (graph.replaceChild id 0 ref)
  | addWrapper {receiver : Nat} (wrapper : Member) (span : Option Span)
      (hasReceiver : (graph.node id).children[0]? = some receiver)
      (isNew : graph.find? ((Kind.field name true).key [graph.keyOf receiver]) = none) :
      Touches id name graph (graph.push (Node.readsWrapper wrapper span
        (.new (.field name true) ((Kind.field name true).key [graph.keyOf receiver]) [receiver])))
  | readWrapper {receiver inner : Nat} (wrapper : Member) (span : Option Span)
      (hasReceiver : (graph.node id).children[0]? = some receiver)
      (found : graph.find? ((Kind.field name true).key [graph.keyOf receiver]) = some inner) :
      Touches id name graph (graph.modify inner (Node.readsWrapper wrapper span))
  | moveToWrapper (inner : Nat) : Touches id name graph (graph.replaceChild id 0 inner)
  | member (member : Member) :
      Touches id name graph (graph.modify id fun node => { node with member := some member })

/-- What settling the type of an access to a name may change. -/
abbrev Touched (id : Nat) (name : String) : Graph → Graph → Prop :=
  Relation.ReflTransGen (Touches id name)

/-- What each touch keeps, settling keeps. -/
theorem Touched.keeps {relation : Graph → Graph → Prop} [IsPreorder Graph relation]
    (h : Touched id name graph next)
    (hstep : ∀ graph next, Touches id name graph next → relation graph next) :
    relation graph next := by
  induction h with
  | refl => exact refl_of relation graph
  | tail _ htouch ih => exact trans_of relation ih (hstep _ _ htouch)

theorem Shaped.push {node : Node} (h : graph.Shaped)
    (hnode : node.kind.Accepts node.children.length) : (graph.push node).Shaped :=
  forall_push (fun node => (node.kind, node.children.length))
    (p := fun part => part.1.Accepts part.2) (fun _ _ => rfl) hnode h

theorem Shaped.modify {change : Node → Node} (h : graph.Shaped)
    (hkind : (change (graph.node id)).kind = (graph.node id).kind)
    (hchildren : (change (graph.node id)).children = (graph.node id).children) :
    (graph.modify id change).Shaped := by
  intro i
  rw [eq_of_modify Node.kind hkind, eq_of_modify Node.children hchildren]
  exact h i

theorem Touches.shaped (h : Touches id name graph next) (hshaped : graph.Shaped) :
    next.Shaped := by
  have hreplace {child : Nat} : (graph.replaceChild id 0 child).Shaped := by
    intro i
    rw [kind_replaceChild, children_replaceChild]
    split
    · next hi => rw [List.length_set, hi]; exact hshaped id
    · exact hshaped i
  cases h with
  | addClass => exact Shaped.push hshaped rfl
  | addWrapper wrapper span =>
    refine hshaped.push ?_
    rw [Node.kind_readsWrapper, Node.children_readsWrapper]
    rfl
  | readWrapper wrapper span =>
    exact hshaped.modify (Node.kind_readsWrapper _ _ _) (Node.children_readsWrapper _ _ _)
  | moveToClass | moveToWrapper => exact hreplace
  | member => exact hshaped.modify rfl rfl

theorem Touched.shaped (h : Touched id name graph next) (hshaped : graph.Shaped) : next.Shaped := by
  induction h with
  | refl => exact hshaped
  | tail _ htouch ih => exact htouch.shaped ih

end Graph

/-! ## The two stages -/

namespace GraphM

open BindingPlan.Graph Operation

variable {classes : ClassRegistry} {graph next : Graph} {id bound : Nat} {name : String}
  {resolveChild : Nat → GraphM ClassType}

/-- The type of a field access over a receiver of a type. -/
def settleField (classes : ClassRegistry) (id : Nat) (name : String) (receiver : Nat)
    (receiverType : ClassType) : GraphM ClassType := do
  let isStatic ← isClassRef receiver
  let member ← lookup id (classes.findMember receiverType name isStatic)
  moveToClass id member receiverType isStatic
  if member.type.observableField then splitWrapper classes id name member
  else
    modifyNode id fun node => { node with member := some member }
    return member.type

/-- The type of a call on a target of a type. -/
def settleCall (classes : ClassRegistry) (id : Nat) (name : String) (target : Nat)
    (targetType : ClassType) (args : List ClassType) : GraphM ClassType := do
  let isStatic ← isClassRef target
  let member ← lookup id (classes.findMethod targetType name args isStatic)
  moveToClass id member targetType isStatic
  modifyNode id fun node => { node with member := some member }
  return member.type

/-- The type of a node over children of the given types. -/
def settle (classes : ClassRegistry) (id : Nat) (node : Node) (types : List ClassType) :
    GraphM ClassType :=
  let child (position : Nat) : Nat := node.children.getD position 0
  let type (position : Nat) : ClassType := types.getD position default
  match node.kind with
  | .identifier name =>
    match node.declaredType with
    | none => lookup id (.error (.untyped name))
    | some type => lookup id (classes.findClass type)
  | .classRef _ qualified => lookup id (classes.findClass qualified)
  | .symbol _ type => lookup id (classes.findClass type)
  | .field name _ => settleField classes id name (child 0) (type 0)
  | .call name => settleCall classes id name (child 0) (type 0) types.tail
  | .binary (.math op) => return mathType op (type 0) (type 1)
  | .binary (.compare _) | .binary (.logical _) | .unary .not => return .plain TypeName.boolean
  | .unary .neg => return type 0
  | .ternary => return if ((← get).node (child 1)).isNullLiteral then type 2 else type 1

theorem operand_of_getElem? {node : Node} {position : Nat} (child : Nat)
    (h : node.children[position]? = some child) : operand node position = pure child := by
  unfold operand
  rw [h]

/-- The children are resolved first, and then the type of the node is settled. -/
theorem run_resolveKind
    (haccepts : (graph.node id).kind.Accepts (graph.node id).children.length) :
    (resolveKind classes resolveChild id).run.run graph =
      ((graph.node id).children.mapM resolveChild >>=
        settle classes id (graph.node id)).run.run graph := by
  unfold resolveKind
  rw [run_bind, run_get]
  dsimp only
  generalize hnode : graph.node id = node at haccepts
  cases hkind : node.kind with
  | identifier name =>
    rw [hkind] at haccepts
    have hnil : node.children = [] := List.length_eq_zero_iff.mp haccepts
    cases htype : node.declaredType with
    | none | some _ => simp only [hnil, List.mapM_nil, pure_bind, settle, hkind, htype]
  | classRef | symbol =>
    rw [hkind] at haccepts
    have hnil : node.children = [] := List.length_eq_zero_iff.mp haccepts
    simp only [hnil, List.mapM_nil, pure_bind, settle, hkind]
  | field name unwrap =>
    rw [hkind] at haccepts
    obtain ⟨receiver, hchildren⟩ := List.length_eq_one_iff.mp haccepts
    unfold resolveField
    rw [run_bind, run_get]
    dsimp only
    rw [hnode, operand_of_getElem? receiver (by rw [hchildren]; rfl)]
    simp only [hchildren, List.mapM_cons, List.mapM_nil, pure_bind, bind_assoc, settle, hkind]
    rfl
  | call name =>
    rw [hkind] at haccepts
    obtain ⟨target, args, hchildren⟩ :=
      List.exists_cons_of_length_pos (show 0 < node.children.length from haccepts)
    unfold resolveCall
    rw [run_bind, run_get]
    dsimp only
    rw [hnode, operand_of_getElem? target (by rw [hchildren]; rfl)]
    simp only [hchildren, List.mapM_cons, pure_bind, bind_assoc, settle, hkind]
    rfl
  | binary op =>
    rw [hkind] at haccepts
    obtain ⟨lhs, rhs, hchildren⟩ := List.length_eq_two.mp haccepts
    cases op with
    | math op =>
      dsimp only
      rw [operand_of_getElem? lhs (by rw [hchildren]; rfl),
        operand_of_getElem? rhs (by rw [hchildren]; rfl)]
      simp only [hchildren, List.mapM_cons, List.mapM_nil, pure_bind, bind_assoc, settle, hkind]
      rfl
    | compare op | logical op =>
      unfold settle
      rw [hkind]
  | unary op =>
    rw [hkind] at haccepts
    obtain ⟨operand, hchildren⟩ := List.length_eq_one_iff.mp haccepts
    cases op with
    | not =>
      unfold settle
      rw [hkind]
    | neg =>
      dsimp only
      rw [operand_of_getElem? operand (by rw [hchildren]; rfl)]
      simp only [hchildren, List.mapM_cons, List.mapM_nil, pure_bind, bind_assoc, settle, hkind]
      exact (congrArg (fun x : GraphM ClassType => x.run.run graph) (bind_pure _)).symm
  | ternary =>
    rw [hkind] at haccepts
    obtain ⟨predicate, whenTrue, whenFalse, hchildren⟩ := List.length_eq_three.mp haccepts
    dsimp only
    rw [operand_of_getElem? predicate (by rw [hchildren]; rfl),
      operand_of_getElem? whenTrue (by rw [hchildren]; rfl),
      operand_of_getElem? whenFalse (by rw [hchildren]; rfl)]
    simp only [hchildren, List.mapM_cons, List.mapM_nil, pure_bind, bind_assoc, settle, hkind]
    rfl

/-- A node without a type is resolved in two stages. -/
theorem run_resolveWithin
    (haccepts : (graph.node id).kind.Accepts (graph.node id).children.length)
    (hnone : (graph.node id).resolvedType = none) :
    (resolveWithin classes (bound + 1) id).run.run graph = ((do
      let types ← (graph.node id).children.mapM (resolveWithin classes bound)
      let type ← settle classes id (graph.node id) types
      modifyNode id fun node => { node with resolvedType := some type }
      return type) : GraphM ClassType).run.run graph := by
  unfold resolveWithin
  rw [run_bind, run_get]
  dsimp only
  rw [hnone]
  dsimp only
  rw [run_bind, run_resolveKind haccepts, ← run_bind, bind_assoc]

theorem run_resolveWithin_of_resolved {type : ClassType}
    (h : (graph.node id).resolvedType = some type) :
    (resolveWithin classes (bound + 1) id).run.run graph = (.ok type, graph) := by
  unfold resolveWithin
  rw [run_bind, run_get]
  dsimp only
  rw [h]
  rfl

/-- What is no node has no type. -/
theorem run_resolveWithin_of_size_le (h : graph.size ≤ id) :
    (resolveWithin classes (bound + 1) id).run.run graph =
      (.error (graph.resolutionError id (.untyped "")), graph) := by
  have hnode : graph.node id = default := node_of_size_le h
  rw [run_resolveWithin (by rw [hnode]; rfl) (by rw [hnode]; rfl), hnode]
  rfl

/-- Resolving changes nothing, unless it is asked for a node without a type. -/
theorem resolveWithin_cases (classes : ClassRegistry) (graph : Graph) (bound id : Nat) :
    (∃ outcome, (resolveWithin classes (bound + 1) id).run.run graph = (outcome, graph)) ∨
      id < graph.size ∧ (graph.node id).resolvedType = none := by
  rcases Nat.lt_or_ge id graph.size with hid | hid
  · cases hnone : (graph.node id).resolvedType with
    | some type => exact .inl ⟨_, run_resolveWithin_of_resolved hnone⟩
    | none => exact .inr ⟨hid, rfl⟩
  · exact .inl ⟨_, run_resolveWithin_of_size_le hid⟩

/-! ## Nodes with types -/

section

variable {ids : List Nat} {types : List ClassType}

/-- Nodes that have types give them, and nothing changes. -/
theorem run_mapM_of_resolved (hbound : ∀ id ∈ ids, id < bound)
    (h : List.Forall₂ (fun id type => (graph.node id).resolvedType = some type) ids types) :
    (ids.mapM (resolveWithin classes bound)).run.run graph = (.ok types, graph) := by
  induction h with
  | nil => rfl
  | @cons id type ids types hid _ ih =>
    obtain ⟨bound, rfl⟩ : ∃ smaller, bound = smaller + 1 :=
      Nat.exists_eq_add_one_of_ne_zero (Nat.ne_zero_of_lt (hbound id List.mem_cons_self))
    rw [List.mapM_cons, run_bind_of_run (run_resolveWithin_of_resolved hid),
      run_bind_of_run (ih fun id hid => hbound id (List.mem_cons_of_mem _ hid))]
    rfl

/-- Behind nodes that were resolved one after the other, each has the type that was given. -/
theorem resolved_of_run_mapM (hids : ∀ id ∈ ids, id < graph.size)
    (hrun : (ids.mapM (resolveWithin classes bound)).run.run graph = (.ok types, next)) :
    List.Forall₂ (fun id type => (next.node id).resolvedType = some type) ids types := by
  induction ids generalizing graph types with
  | nil =>
    rw [List.mapM_nil] at hrun
    cases hrun
    exact .nil
  | cons id ids ih =>
    rw [List.mapM_cons] at hrun
    obtain ⟨type, reached, hfirst, hrun⟩ := exists_of_run_bind hrun
    obtain ⟨types, last, hrest, hrun⟩ := exists_of_run_bind hrun
    cases hrun
    have hsettles := ((admits_settles classes).resolveWithin bound id).of_run hfirst
    have hremembers := (keeps_mapM ((admits_settles classes).resolveWithin bound) ids).of_run hrest
    refine .cons ?_ (ih (fun id hid => Nat.lt_of_lt_of_le (hids id (List.mem_cons_of_mem _ hid))
      hsettles.size_le) hrest)
    exact hremembers.remembers.resolvedType id type
      (resolved_of_run_resolveWithin (hids id List.mem_cons_self) hfirst)

/-- Of nodes with types, each has the one at its position. -/
theorem resolved_getD
    (h : List.Forall₂ (fun id type => (graph.node id).resolvedType = some type) ids types)
    (position : Nat) (hlt : position < ids.length) :
    ids[position]? = some (ids.getD position 0) ∧
      (graph.node (ids.getD position 0)).resolvedType = some (types.getD position default) := by
  have hlt' : position < types.length := h.length_eq ▸ hlt
  rw [List.getD_eq_getElem?_getD, List.getD_eq_getElem?_getD, List.getElem?_eq_getElem hlt,
    List.getElem?_eq_getElem hlt']
  exact ⟨rfl, h.get hlt hlt'⟩

theorem resolved_of_forall₂
    (h : List.Forall₂ (fun id type => (graph.node id).resolvedType = some type) ids types) :
    ∀ id ∈ ids, (graph.node id).resolvedType.isSome := by
  intro id hid
  obtain ⟨position, hlt, rfl⟩ := List.getElem_of_mem hid
  exact Option.isSome_of_eq_some (h.get hlt (h.length_eq ▸ hlt))

end

/-! ## Moving the first child -/

/-- There is a reference to the class, or it has just been added. -/
inductive Imports (type : ClassType) (graph : Graph) : Graph → Prop where
  | stays : Imports type graph graph
  | adds (shortName : String) (imports : ImportTable) (isOpen : graph.isSealed = false)
      (isNew : graph.find? (Kind.classKey type.name) = none) :
      Imports type graph
        (({ graph with imports := imports } : Graph).push (classNode shortName type))

/-- What moving a static member to its class does, case by case. -/
theorem moveToClass_cases (id : Nat) (member : Member) (type : ClassType) (isStatic : Bool)
    (graph : Graph) :
    (member.isStatic && !isStatic) = false ∧
      (moveToClass id member type isStatic).run.run graph = (.ok ⟨⟩, graph) ∨
    (member.isStatic && !isStatic) = true ∧
      (graph.isSealed = true ∧
        (∃ e, (moveToClass id member type isStatic).run.run graph = (.error e, graph)) ∨
      ∃ based ref, Imports type graph based ∧ based.find? (Kind.classKey type.name) = some ref ∧
        (moveToClass id member type isStatic).run.run graph =
          (.ok ⟨⟩, based.replaceChild id 0 ref)) := by
  cases hmoves : member.isStatic && !isStatic with
  | false =>
    refine .inl ⟨rfl, ?_⟩
    unfold moveToClass
    rw [hmoves]
    rfl
  | true =>
    refine .inr ⟨rfl, ?_⟩
    unfold moveToClass
    rw [hmoves, if_pos rfl, run_bind]
    obtain ⟨ref, hfound, h⟩ | ⟨hsealed, -, h⟩ | ⟨hopen, hnew, shortName, imports, h⟩ :=
      classRefFor_cases type graph
    · rw [h]
      exact .inr ⟨graph, ref, .stays, hfound, rfl⟩
    · rw [h]
      exact .inl ⟨hsealed, _, rfl⟩
    · rw [h]
      exact .inr ⟨_, graph.size, .adds shortName imports hopen hnew,
        find?_push_classNode imports shortName hnew, rfl⟩

/-- A node reads the wrapper that the receiver holds: one that was there, or one that has just been
added. -/
inductive Unwraps (wrapper : Member) (span : Option Span) (name : String) (receiver : Nat)
    (graph : Graph) : Nat → Graph → Prop where
  | found {inner : Nat}
      (found : graph.find? ((Kind.field name true).key [graph.keyOf receiver]) = some inner) :
      Unwraps wrapper span name receiver graph inner
        (graph.modify inner (Node.readsWrapper wrapper span))
  | adds (isOpen : graph.isSealed = false)
      (isNew : graph.find? ((Kind.field name true).key [graph.keyOf receiver]) = none) :
      Unwraps wrapper span name receiver graph graph.size
        (graph.push (Node.readsWrapper wrapper span
          (.new (.field name true) ((Kind.field name true).key [graph.keyOf receiver]) [receiver])))

/-- What splitting an access to a wrapper does, case by case. -/
theorem splitWrapper_cases {receiver : Nat} (classes : ClassRegistry) (name : String)
    (wrapper : Member) (hreceiver : (graph.node id).children[0]? = some receiver) :
    graph.isSealed = true ∧
      (∃ e, (splitWrapper classes id name wrapper).run.run graph = (.error e, graph)) ∨
    ∃ inner read, Unwraps wrapper (graph.node id).span name receiver graph inner read ∧
      ((∃ value, classes.findMember wrapper.type "get" false = .ok value ∧
        (splitWrapper classes id name wrapper).run.run graph =
          (.ok value.type, (read.replaceChild id 0 inner).modify id fun node =>
            { node with member := some value })) ∨
      ∃ cause e, classes.findMember wrapper.type "get" false = .error cause ∧
        (splitWrapper classes id name wrapper).run.run graph =
          (.error e, read.replaceChild id 0 inner)) := by
  have hid := lt_size_of_children (List.mem_of_getElem? hreceiver)
  have hread {inner : Nat} {read : Graph}
      (hrun : (readWrapper id name wrapper receiver).run.run graph = (.ok inner, read)) :
      (splitWrapper classes id name wrapper).run.run graph = (do
        let value ← lookup id (classes.findMember wrapper.type "get" false)
        modifyNode id fun node => { node with member := some value }
        return value.type : GraphM ClassType).run.run (read.replaceChild id 0 inner) := by
    rw [splitWrapper_eq, run_bind, run_get]
    dsimp only
    rw [operand_of_getElem? receiver hreceiver, pure_bind, run_bind, hrun]
    rfl
  have hcases {inner : Nat} {read : Graph}
      (hrun : (readWrapper id name wrapper receiver).run.run graph = (.ok inner, read)) :
      (∃ value, classes.findMember wrapper.type "get" false = .ok value ∧
        (splitWrapper classes id name wrapper).run.run graph =
          (.ok value.type, (read.replaceChild id 0 inner).modify id fun node =>
            { node with member := some value })) ∨
      ∃ cause e, classes.findMember wrapper.type "get" false = .error cause ∧
        (splitWrapper classes id name wrapper).run.run graph =
          (.error e, read.replaceChild id 0 inner) := by
    rw [hread hrun]
    cases classes.findMember wrapper.type "get" false with
    | ok value => exact .inl ⟨value, rfl, rfl⟩
    | error cause => exact .inr ⟨cause, _, rfl, rfl⟩
  obtain ⟨inner, hfound, hrun⟩ | ⟨hsealed, hrun⟩ | ⟨hopen, hnew, hrun⟩ :=
    readWrapper_cases receiver name wrapper hid
  · exact .inr ⟨inner, _, .found hfound, hcases hrun⟩
  · refine .inl ⟨hsealed,
      .registerAfterSeal ((Kind.field name true).key [graph.keyOf receiver]), ?_⟩
    rw [splitWrapper_eq, run_bind, run_get]
    dsimp only
    rw [operand_of_getElem? receiver hreceiver, pure_bind, run_bind, hrun]
  · exact .inr ⟨graph.size, _, .adds hopen hnew, hcases hrun⟩

/-! ## Settling touches one node -/

theorem touched_moveToClass (member : Member) (receiverType : ClassType) (isStatic : Bool) :
    Operation.Keeps (Touched id name) (moveToClass id member receiverType isStatic) := by
  intro graph
  obtain ⟨-, h⟩ | ⟨-, ⟨-, _, h⟩ | ⟨based, ref, himports, hfound, h⟩⟩ :=
    moveToClass_cases id member receiverType isStatic graph
  · rw [h]
  · rw [h]
  · rw [h]
    cases himports with
    | stays => exact .single (.moveToClass hfound)
    | adds shortName imports _ isNew =>
      exact (Relation.ReflTransGen.single (.addClass imports isNew)).tail (.moveToClass hfound)

theorem touched_splitWrapper (wrapper : Member) :
    Operation.Keeps (Touched id name) (splitWrapper classes id name wrapper) := by
  intro graph
  cases hreceiver : (graph.node id).children[0]? with
  | none =>
    rw [splitWrapper_eq, run_bind, run_get]
    unfold operand
    dsimp only
    rw [hreceiver]
    exact .refl
  | some receiver =>
    obtain ⟨-, _, h⟩ | ⟨inner, read, hunwraps, hget⟩ :=
      splitWrapper_cases classes name wrapper hreceiver
    · rw [h]
    have hread : Touched id name graph (read.replaceChild id 0 inner) := by
      refine Relation.ReflTransGen.tail (.single ?_) (.moveToWrapper inner)
      cases hunwraps with
      | found found => exact .readWrapper wrapper _ hreceiver found
      | adds _ isNew => exact .addWrapper wrapper _ hreceiver isNew
    obtain ⟨value, -, h⟩ | ⟨_, _, -, h⟩ := hget
    · rw [h]
      exact hread.tail (.member value)
    · rw [h]
      exact hread

theorem touched_settleField (receiver : Nat) (receiverType : ClassType) :
    Operation.Keeps (Touched id name) (settleField classes id name receiver receiverType) := by
  refine keeps_bind (keeps_isClassRef receiver) fun _ => ?_
  refine keeps_bind (keeps_lookup id _) fun member => ?_
  refine keeps_bind (touched_moveToClass member _ _) fun _ => ?_
  split
  · exact touched_splitWrapper member
  · exact keeps_bind (keeps_modify fun _ => .single (.member member)) fun _ => keeps_pure _

theorem touched_settleCall (target : Nat) (targetType : ClassType) (args : List ClassType) :
    Operation.Keeps (Touched id name) (settleCall classes id name target targetType args) := by
  refine keeps_bind (keeps_isClassRef target) fun _ => ?_
  refine keeps_bind (keeps_lookup id _) fun member => ?_
  refine keeps_bind (touched_moveToClass member _ _) fun _ => ?_
  exact keeps_bind (keeps_modify fun _ => .single (.member member)) fun _ => keeps_pure _

/-- The name that a node of the kind looks up. -/
def memberName : Kind → String
  | .field name _ | .call name => name
  | _ => ""

/-- Settling the type of a node touches no other node. -/
theorem touched_settle (node : Node) (types : List ClassType) :
    Operation.Keeps (Touched id (memberName node.kind)) (settle classes id node types) := by
  unfold settle
  dsimp only
  cases node.kind with
  | identifier name =>
    cases node.declaredType with
    | none => exact keeps_lookup id _
    | some type => exact keeps_lookup id _
  | classRef | symbol => exact keeps_lookup id _
  | field => exact touched_settleField _ _
  | call => exact touched_settleCall _ _ _
  | binary op => cases op <;> exact keeps_pure _
  | unary op => cases op <;> exact keeps_pure _
  | ternary => exact keeps_bind keeps_get fun _ => keeps_pure _

/-! ## Members of settled accesses -/

theorem member_of_run_annotate {member : Member} {type : ClassType}
    (hrun : (do
      modifyNode id fun node => { node with member := some member }
      return member.type : GraphM ClassType).run.run graph = (.ok type, next))
    (hid : id < next.size) : (next.node id).member = some member := by
  cases hrun
  rw [size_modify] at hid
  rw [node_modify_self hid]

/-- A field access that was settled has the member that was looked up, or that of the wrapper. -/
theorem member_of_run_settleField {receiver : Nat} {receiverType type : ClassType}
    (hrun : (settleField classes id name receiver receiverType).run.run graph = (.ok type, next))
    (hid : id < next.size) : (next.node id).member.isSome := by
  obtain ⟨_, _, -, hrun⟩ := exists_of_run_bind hrun
  obtain ⟨member, _, -, hrun⟩ := exists_of_run_bind hrun
  obtain ⟨_, reached, -, hrun⟩ := exists_of_run_bind hrun
  split at hrun
  · rw [splitWrapper_eq, run_bind, run_get] at hrun
    obtain ⟨_, _, -, hrun⟩ := exists_of_run_bind hrun
    obtain ⟨_, _, -, hrun⟩ := exists_of_run_bind hrun
    obtain ⟨_, _, -, hrun⟩ := exists_of_run_bind hrun
    obtain ⟨value, _, -, hrun⟩ := exists_of_run_bind hrun
    exact Option.isSome_of_eq_some (member_of_run_annotate hrun hid)
  · exact Option.isSome_of_eq_some (member_of_run_annotate hrun hid)

theorem member_of_run_settleCall {target : Nat} {targetType type : ClassType}
    {args : List ClassType}
    (hrun : (settleCall classes id name target targetType args).run.run graph = (.ok type, next))
    (hid : id < next.size) : (next.node id).member.isSome := by
  obtain ⟨_, _, -, hrun⟩ := exists_of_run_bind hrun
  obtain ⟨member, _, -, hrun⟩ := exists_of_run_bind hrun
  obtain ⟨_, _, -, hrun⟩ := exists_of_run_bind hrun
  exact Option.isSome_of_eq_some (member_of_run_annotate hrun hid)

theorem size_le_of_touched (h : Touched id name graph next) : graph.size ≤ next.size := by
  induction h with
  | refl => exact Nat.le_refl _
  | tail _ htouch ih =>
    refine Nat.le_trans ih ?_
    cases htouch with
    | addClass imports =>
      rw [size_push]
      exact Nat.le_succ _
    | addWrapper =>
      rw [size_push]
      exact Nat.le_succ _
    | readWrapper | member => exact Nat.le_of_eq (size_modify _ _).symm
    | moveToClass | moveToWrapper => exact Nat.le_of_eq size_replaceChild.symm

/-- An access that was settled has its member. -/
theorem member_of_run_settle {node : Node} {types : List ClassType} {type : ClassType}
    (hid : id < graph.size) (hkind : node.kind.hasReceiver = true)
    (hrun : (settle classes id node types).run.run graph = (.ok type, next)) :
    (next.node id).member.isSome := by
  have hid : id < next.size :=
    Nat.lt_of_lt_of_le hid (size_le_of_touched ((touched_settle node types).of_run hrun))
  unfold settle at hrun
  dsimp only at hrun
  cases hnode : node.kind with
  | field name unwrap =>
    rw [hnode] at hrun
    exact member_of_run_settleField hrun hid
  | call name =>
    rw [hnode] at hrun
    exact member_of_run_settleCall hrun hid
  | _ =>
    rw [hnode] at hkind
    cases hkind

end GraphM
end BindingPlan
