import BindingPlan.Proofs.Graph.Fresh
import BindingPlan.Proofs.Graph.Receivers

/-!
# Accesses move to the class of static members

A look-up on a class takes static members only, and any other takes whatever there is; then an
access to a static member moves to the class of its receiver. So when it has its type, an access is
over a class exactly if its member is static, whether the class was written there or the access has
moved to it. An access that holds a wrapper moves on to the node that reads it and takes the value
of the wrapper, which is no static member.

On the way, classes and nodes that read wrappers are found by their keys.

Main results:

* `Graph.Moves.awaits`, `Graph.Awaits.unwraps`: where an access moves to.
* `GraphM.wellAnchored_settle`: settling the type of a node keeps graphs in form.
* `Graph.Terms.spelled`, `Graph.Grown.inForm`: graphs that are built by requests for written
  expressions are in form.
-/

namespace BindingPlan

namespace ClassRegistry

/-- No wrapper gives its value by a static member. -/
def UnwrapsInstances (classes : ClassRegistry) : Prop :=
  ∀ c ∈ classes.classes, (classes.typeOf c).observableField = true →
    (classes.findMember (classes.typeOf c) "get" false).toOption.all
      (fun value => !value.isStatic) = true

instance (classes : ClassRegistry) : Decidable classes.UnwrapsInstances :=
  inferInstanceAs (Decidable (∀ c ∈ classes.classes, (classes.typeOf c).observableField = true →
    (classes.findMember (classes.typeOf c) "get" false).toOption.all
      (fun value => !value.isStatic) = true))

theorem UnwrapsInstances.isStatic {classes : ClassRegistry} (h : classes.UnwrapsInstances)
    {owner : ClassType} {name : String} {staticOnly : Bool} {member value : Member}
    (hmember : classes.findMember owner name staticOnly = .ok member)
    (hwraps : member.type.observableField = true)
    (hvalue : classes.findMember member.type "get" false = .ok value) : value.isStatic = false := by
  obtain ⟨c, hc, htype⟩ := exists_typeOf_of_findMember hmember
  rw [← htype] at hwraps hvalue
  have hvalues := h c hc hwraps
  rw [hvalue] at hvalues
  exact Bool.not_eq_true' _ ▸ hvalues

end ClassRegistry

namespace Graph

open GraphM

variable {known : String → Prop} {busy : Nat → Prop} {graph next : Graph}
  {i id child receiver : Nat}
  {member : Member} {q : String}

/-! ## Settling an access -/

/-- An access that was written over the receiver waits for its type, over the child. -/
structure Awaits (known : String → Prop) (graph : Graph) (id child receiver : Nat) : Prop where
  wellAnchored : WellAnchored known (· = id) graph
  waits : (graph.node id).resolvedType = none
  hasChild : (graph.node id).children[0]? = some child
  wrapped : Wrapped known (graph.keyOf child).toList
  written : graph.WrittenOver id receiver

theorem Awaits.child_lt (h : Awaits known graph id child receiver) : child < graph.size :=
  h.wellAnchored.children_lt id child (List.mem_of_getElem? h.hasChild)

/-- The access stays as it is. -/
theorem Awaits.congr (h : Awaits known graph id child receiver)
    (hnext : WellAnchored known (· = id) next) (hretells : graph.Retells next)
    (hsame : (next.node id).unlinked = (graph.node id).unlinked) :
    Awaits known next id child receiver := by
  have hchildren : (next.node id).children = (graph.node id).children :=
    (congrArg Node.children hsame :)
  refine ⟨hnext, (congrArg Node.resolvedType hsame :).trans h.waits, hchildren ▸ h.hasChild, ?_, ?_⟩
  · rw [hretells.keyOf child h.child_lt]
    exact h.wrapped
  · exact h.written.mono hretells (lt_size_of_children (List.mem_of_getElem? h.hasChild))
      (h.wellAnchored.children_lt id) (by rw [hchildren])

/-- The access moves to another child. -/
theorem Awaits.replaceChild (h : Awaits known graph id child receiver) {other : Nat}
    (hlt : other < graph.size) (hwrapped : Wrapped known (graph.keyOf other).toList) :
    Awaits known (graph.replaceChild id 0 other) id other receiver where
  wellAnchored := h.wellAnchored.replaceChild h.waits hlt
  waits := by
    rw [resolvedType_replaceChild]
    exact h.waits
  hasChild := by
    rw [children_replaceChild, if_pos rfl, List.getElem?_set_self]
    exact (List.getElem?_eq_some_iff.mp h.hasChild).1
  wrapped := by
    rw [keyOf_replaceChild]
    exact hwrapped
  written := by
    refine h.written.mono (retells_replaceChild id 0 other)
      (lt_size_of_children (List.mem_of_getElem? h.hasChild)) (h.wellAnchored.children_lt id) ?_
    rw [children_replaceChild, if_pos rfl, List.drop_set_of_lt Nat.zero_lt_one]

/-- The access gets its member and its type. -/
theorem Awaits.resolved (h : Awaits known graph id child receiver)
    (hsuits : graph.Suits child receiver member) {type : ClassType} (hknown : known type.name) :
    WellAnchored known (fun _ => False)
      ((graph.modify id fun node => { node with member := some member }).modify id
        fun node => { node with resolvedType := some type }) := by
  have hid := lt_size_of_children (List.mem_of_getElem? h.hasChild)
  have hnoted : WellAnchored known (· = id)
      (graph.modify id fun node => { node with member := some member }) := by
    refine h.wellAnchored.modify rfl rfl (fun _ htype => htype) (fun _ => .inl)
      fun _ _ hsome => ?_
    have hsome : (graph.node id).resolvedType.isSome := hsome
    rw [h.waits] at hsome
    cases hsome
  have hretells : graph.Retells
      ((graph.modify id fun node => { node with member := some member }).modify id
        fun node => { node with resolvedType := some type }) := by
    refine (retells_modify rfl fun _ htype => htype).trans (retells_modify rfl ?_)
    intro other htype
    rw [eq_of_modify Node.resolvedType rfl, h.waits] at htype
    cases htype
  have hnode : ((graph.modify id fun node => { node with member := some member }).modify id
      fun node => { node with resolvedType := some type }).node id =
        { graph.node id with member := some member, resolvedType := some type } := by
    rw [node_modify_self (by rwa [size_modify]), node_modify_self hid]
  refine (hnoted.modify rfl rfl (fun _ htype => ?_) (fun _ htype => ?_)
    fun _ _ _ => .inr ⟨child, receiver, member, ?_⟩).free ?_
  · rw [eq_of_modify Node.resolvedType rfl, h.waits] at htype
    cases htype
  · cases htype
    exact .inr hknown
  · refine ⟨?_, ?_, ?_, hsuits.mono hretells h.child_lt h.written.1⟩
    · rw [hnode]
      exact h.hasChild
    · rw [hnode]
    · exact h.written.mono hretells hid (h.wellAnchored.children_lt id) (by rw [hnode])
  · rw [hnode]
    rfl

/-- What has the key of a class is the class. -/
theorem WellAnchored.isClassRef_of_find? (h : WellAnchored known busy graph) (hq : known q)
    (hfound : graph.find? (Kind.classKey q) = some id) :
    (graph.node id).kind.isClassRef = true := by
  refine (h.told id).keyed.isClassRef q hq ?_
  rw [← Kind.toList_classKey, ← keyOf_of_find? hfound]
  rfl

/-- A class has the key of a class. -/
theorem WellAnchored.exists_className (h : WellAnchored known busy graph)
    (hclass : (graph.node id).kind.isClassRef = true) :
    ∃ q, graph.className? id = some q ∧ graph.keyOf id = Kind.classKey q := by
  cases hkind : (graph.node id).kind with
  | classRef shortName q =>
    refine ⟨q, className?_of_classRef hkind, String.toList_inj.mp ?_⟩
    rw [Kind.toList_classKey]
    exact (h.told id).keyed.classRef shortName q hkind
  | identifier | field | call | binary | unary | ternary | symbol =>
    rw [hkind] at hclass
    cases hclass

section

variable {classes : ClassRegistry} {type : ClassType} {isStatic : Bool} (hapart : Apart known)

include hapart

theorem WellAnchored.imports (h : WellAnchored known busy graph)
    (himports : Imports type graph next)
    (hknown : known type.name) : WellAnchored known busy next := by
  cases himports with
  | stays => exact h
  | adds shortName imports =>
    have himported : WellAnchored known busy { graph with imports := imports } := h.of_nodes_eq rfl
    refine himported.push ⟨keyed_classRef hapart (.inl hknown), ?_, nofun⟩ nofun nofun nofun
    rintro _ ⟨⟩
    exact hknown

/-- An access to a static member moves to the class of its receiver. -/
theorem Moves.awaits (h : Moves id member type isStatic graph next)
    (hawaits : Awaits known graph id receiver receiver)
    (htype : (graph.node receiver).resolvedType = some type)
    (hclass : (graph.node receiver).kind.isClassRef = isStatic)
    (hstatic : isStatic = true → member.isStatic = true) :
    ∃ moved, Awaits known next id moved receiver ∧ next.Suits moved receiver member := by
  cases h with
  | stays hstays =>
    refine ⟨receiver, hawaits, ?_, fun hmember => ?_⟩
    · cases isStatic with
      | true => rw [hclass, hstatic rfl]
      | false =>
        rw [Bool.not_false, Bool.and_true] at hstays
        rw [hclass, hstays]
    · rw [hmember, Bool.true_and, Bool.not_eq_false'] at hstays
      exact hawaits.wellAnchored.exists_className (hclass.trans hstays)
  | @moves based ref hmoves himports hfound =>
    obtain ⟨hmember, hother⟩ := Bool.and_eq_true_iff.mp hmoves
    rw [Bool.not_eq_true'] at hother
    have hknown := (hawaits.wellAnchored.told receiver).typeName type htype
    have hbased := hawaits.wellAnchored.imports hapart himports hknown
    obtain ⟨hretells, hsame⟩ : graph.Retells based ∧
        (based.node id).unlinked = (graph.node id).unlinked := by
      cases himports with
      | stays => exact ⟨.refl graph, rfl⟩
      | adds shortName imports =>
        have hid := lt_size_of_children (List.mem_of_getElem? hawaits.hasChild)
        exact ⟨(retells_imports imports).trans retells_push,
          eq_of_push Node.unlinked (fun _ _ => rfl) hid⟩
    have hawaits' := hawaits.congr hbased hretells hsame
    have hlt := (find?_eq_some_iff.mp hfound).1
    have hkey := keyOf_of_find? hfound
    refine ⟨ref, hawaits'.replaceChild hlt ?_, Suits.mono ⟨?_, fun _ => ⟨type.name, ?_, hkey⟩⟩
      (retells_replaceChild id 0 ref) hlt hawaits'.written.1⟩
    · rw [hkey, Kind.toList_classKey]
      exact .spelled (.ref hknown)
    · rw [hmember]
      exact hbased.isClassRef_of_find? hknown hfound
    · exact hretells.className? hawaits.written.1
        (className?_of_resolved (hclass.trans hother) htype)

/-- An access to a wrapper moves on to the node that reads it. -/
theorem Awaits.unwraps {inner : Nat} {read : Graph} {name : String} {span : Option Span}
    (hawaits : Awaits known graph id child receiver)
    (h : Unwraps member span name child graph inner read)
    (hsuits : graph.Suits child receiver member)
    (hname : IsName name.toList) (hknown : known member.type.name) :
    Awaits known (read.replaceChild id 0 inner) id inner receiver ∧
      ((read.replaceChild id 0 inner).node inner).kind.isClassRef = false := by
  have hid := lt_size_of_children (List.mem_of_getElem? hawaits.hasChild)
  have hwrapped : Wrapped known ((Kind.field name true).key [graph.keyOf child]).toList := by
    rw [Kind.toList_key_wrapper]
    exact hawaits.wrapped.wrapper hname
  cases h with
  | found hfound =>
    have hkey := keyOf_of_find? hfound
    have htold := hawaits.wellAnchored.told inner
    obtain ⟨other, hkind⟩ := htold.keyed.isWrapper _ _ hawaits.wrapped hname
      ((congrArg String.toList hkey).trans (Kind.toList_key_wrapper name _))
    -- the node has its type, and so it stays as it is
    rw [modify_eq_self (Node.readsWrapper_eq_self (htold.resolved other hkind) _ _)]
    refine ⟨hawaits.replaceChild (find?_eq_some_iff.mp hfound).1 ?_, ?_⟩
    · rw [hkey]
      exact hwrapped
    · rw [kind_replaceChild, hkind]
      rfl
  | adds =>
    have hread : WellAnchored known (· = id) (graph.push (Node.readsWrapper member span
        (.new (.field name true) ((Kind.field name true).key [graph.keyOf child]) [child]))) := by
      refine hawaits.wellAnchored.push
        ⟨keyed_wrapper hapart hawaits.wrapped hname, ?_, fun _ _ => rfl⟩ ?_ nofun
        fun _ _ => ⟨child, child, member, ?_⟩
      · rintro _ ⟨⟩
        exact hknown
      · rintro _ hmem
        cases List.mem_singleton.mp hmem
        exact hawaits.child_lt
      · refine ⟨?_, ?_, ⟨?_, ?_⟩, ?_⟩
        · rw [node_push_self]
          rfl
        · rw [node_push_self]
          rfl
        · rw [size_push]
          exact Nat.lt_succ_of_lt hawaits.child_lt
        · rw [node_push_self, retells_push.keyOf child hawaits.child_lt]
          exact congrArg Node.key node_push_self
        · refine Suits.mono ⟨hsuits.isClassRef, fun hstatic => ?_⟩ retells_push hawaits.child_lt
            hawaits.child_lt
          exact hawaits.wellAnchored.exists_className (hsuits.isClassRef.trans hstatic)
    have hawaits' := hawaits.congr hread retells_push
      (eq_of_push Node.unlinked (fun _ _ => rfl) hid)
    refine ⟨hawaits'.replaceChild ?_ ?_, ?_⟩
    · rw [size_push]
      exact Nat.lt_succ_self _
    · rw [keyOf_push, if_pos rfl]
      exact hwrapped
    · rw [kind_replaceChild, node_push_self]
      rfl

/-- The access gets its type with the member that is noted. -/
theorem Notes.wellAnchored {name : String} {value : Member}
    (h : Notes classes id name member graph value next)
    (hawaits : Awaits known graph id child receiver) (hsuits : graph.Suits child receiver member)
    (hname : IsName name.toList) (hknown : known member.type.name)
    (hvalue : known value.type.name)
    (hinstance : member.type.observableField = true →
      classes.findMember member.type "get" false = .ok value → value.isStatic = false) :
    WellAnchored known (fun _ => False)
      (next.modify id fun node => { node with resolvedType := some value.type }) := by
  cases h with
  | itself => exact hawaits.resolved hsuits hknown
  | value wraps hasReceiver unwraps get =>
    cases hawaits.hasChild.symm.trans hasReceiver
    obtain ⟨hread, hclass⟩ := hawaits.unwraps hapart unwraps hsuits hname hknown
    have hstatic := hinstance wraps get
    refine hread.resolved ⟨hclass.trans hstatic.symm, fun h => ?_⟩ hvalue
    cases hstatic.symm.trans h

end

/-- An access as it was registered waits over the receiver that it was written over. -/
theorem WellAnchored.awaits (h : WellAnchored known (fun _ => False) graph) (hfresh : graph.Fresh i)
    (hnone : (graph.node i).resolvedType = none)
    (hreceiver : (graph.node i).children[0]? = some receiver) :
    Awaits known graph i receiver receiver where
  wellAnchored := h.of_free
  waits := hnone
  hasChild := hreceiver
  wrapped := .spelled (h.spelled i id hnone receiver (List.mem_of_getElem? hreceiver))
  written := by
    refine ⟨h.children_lt i receiver (List.mem_of_getElem? hreceiver), hfresh.key.trans ?_⟩
    generalize (graph.node i).children = children at hreceiver ⊢
    cases children with
    | nil => cases hreceiver
    | cons first rest =>
      cases hreceiver
      rfl

/-- What is no access gets its type. -/
theorem WellAnchored.typed (h : WellAnchored known (fun _ => False) graph)
    (hkind : (graph.node id).kind.hasReceiver = false)
    (hnone : (graph.node id).resolvedType = none) {type : ClassType} (hknown : known type.name) :
    WellAnchored known (fun _ => False)
      (graph.modify id fun node => { node with resolvedType := some type }) := by
  refine h.modify rfl rfl (fun other htype => ?_) (fun other htype => ?_)
    fun _ hreceiver _ => ?_
  · rw [hnone] at htype
    cases htype
  · cases htype
    exact .inr hknown
  · rw [hkind] at hreceiver
    cases hreceiver

end Graph

/-! ## Settling a type -/

namespace GraphM

open BindingPlan.Graph Operation

variable {known : String → Prop} {classes : ClassRegistry} {graph next : Graph} {id : Nat}
  {type : ClassType} {types : List ClassType}

theorem ok_of_run_lookup {α : Type} {result : Except ResolveError α} {a : α}
    (hrun : (lookup id result).run.run graph = (.ok a, next)) : result = .ok a ∧ next = graph := by
  cases result with
  | error cause => cases hrun
  | ok value =>
    cases hrun
    exact ⟨rfl, rfl⟩

/-- Settling the type of what is no access changes nothing, and gives a type of a known name. -/
theorem settle_of_hasReceiver_eq_false
    (hcovers : (Rules.written known (fun _ => True) True).Covers classes) {node : Node}
    (haccepts : node.kind.Accepts node.children.length) (hkind : node.kind.hasReceiver = false)
    (hpart : ∀ position < node.children.length, known (types.getD position default).name)
    (hrun : (settle classes id node types).run.run graph = (.ok type, next)) :
    next = graph ∧ known type.name := by
  have hclass {name : String} (hrun : (lookup id (classes.findClass name)).run.run graph =
      (.ok type, next)) : next = graph ∧ known type.name := by
    obtain ⟨hfound, rfl⟩ := ok_of_run_lookup hrun
    exact ⟨rfl, hcovers.findClass hfound⟩
  have hboolean : known TypeName.boolean := hcovers.builtin _ (by decide)
  unfold settle at hrun
  dsimp only at hrun
  cases hnode : node.kind with
  | identifier name =>
    rw [hnode] at hrun
    cases hdeclared : node.declaredType with
    | none =>
      rw [hdeclared] at hrun
      cases hrun
    | some type =>
      rw [hdeclared] at hrun
      exact hclass hrun
  | classRef | symbol =>
    rw [hnode] at hrun
    exact hclass hrun
  | binary op =>
    rw [hnode] at hrun haccepts
    have hlength : node.children.length = 2 := haccepts
    cases op with
    | math op =>
      cases hrun
      exact ⟨rfl, typeName_mathType hcovers (hpart 0 (by omega)) (hpart 1 (by omega))⟩
    | compare | logical =>
      cases hrun
      exact ⟨rfl, hboolean⟩
  | unary op =>
    rw [hnode] at hrun haccepts
    have hlength : node.children.length = 1 := haccepts
    cases op with
    | not =>
      cases hrun
      exact ⟨rfl, hboolean⟩
    | neg =>
      cases hrun
      exact ⟨rfl, hpart 0 (by omega)⟩
  | ternary =>
    rw [hnode] at hrun haccepts
    have hlength : node.children.length = 3 := haccepts
    cases hrun
    refine ⟨rfl, ?_⟩
    split
    · exact hpart 2 (by omega)
    · exact hpart 1 (by omega)
  | field | call =>
    rw [hnode] at hkind
    cases hkind

/-- What settling a type over children with types comes down to if it succeeds: nothing changes,
unless the node is an access, which is settled with the type of its first child. -/
theorem settle_cases (hcovers : (Rules.written known (fun _ => True) True).Covers classes)
    (haccepts : (graph.node id).kind.Accepts (graph.node id).children.length)
    (hknown : ∀ i type, (graph.node i).resolvedType = some type → known type.name)
    (htypes : List.Forall₂ (fun child type => (graph.node child).resolvedType = some type)
      (graph.node id).children types)
    (hrun : (settle classes id (graph.node id) types).run.run graph = (.ok type, next)) :
    ((graph.node id).kind.hasReceiver = false ∧ next = graph ∧ known type.name) ∨
    (∃ name unwrap receiver receiverType, (graph.node id).kind = .field name unwrap ∧
      (graph.node id).children[0]? = some receiver ∧
      (graph.node receiver).resolvedType = some receiverType ∧
      (settleField classes id name receiver receiverType).run.run graph = (.ok type, next)) ∨
    ∃ name target targetType args, (graph.node id).kind = .call name ∧
      (graph.node id).children[0]? = some target ∧
      (graph.node target).resolvedType = some targetType ∧
      (settleCall classes id name target targetType args).run.run graph = (.ok type, next) := by
  have hchild := resolved_getD htypes
  cases hreceiver : (graph.node id).kind.hasReceiver with
  | false =>
    exact .inl ⟨rfl, settle_of_hasReceiver_eq_false hcovers haccepts hreceiver
      (fun position hlt => hknown _ _ (hchild position hlt).2) hrun⟩
  | true =>
    unfold settle at hrun
    dsimp only at hrun
    cases hkind : (graph.node id).kind with
    | field name unwrap =>
      rw [hkind] at hrun haccepts
      obtain ⟨hfirst, htype⟩ := hchild 0 (Nat.lt_of_lt_of_eq Nat.zero_lt_one haccepts.symm)
      exact .inr (.inl ⟨name, unwrap, _, _, rfl, hfirst, htype, hrun⟩)
    | call name =>
      rw [hkind] at hrun haccepts
      obtain ⟨hfirst, htype⟩ := hchild 0 haccepts
      exact .inr (.inr ⟨name, _, _, _, rfl, hfirst, htype, hrun⟩)
    | identifier | binary | unary | ternary | classRef | symbol =>
      rw [hkind] at hreceiver
      cases hreceiver

section

variable (hapart : Apart known)
  (hcovers : (Rules.written known (fun _ => True) True).Covers classes)
  (hvalues : classes.UnwrapsInstances) (huntouched : graph.Untouched)
  (h : WellAnchored known (fun _ => False) graph) (hid : id < graph.size)
  (hnone : (graph.node id).resolvedType = none)

include hapart hcovers hvalues huntouched h hid hnone

theorem wellAnchored_settleField {name : String} {receiver : Nat} {receiverType : ClassType}
    (hname : IsName name.toList) (hreceiver : (graph.node id).children[0]? = some receiver)
    (htype : (graph.node receiver).resolvedType = some receiverType)
    (hrun : (settleField classes id name receiver receiverType).run.run graph = (.ok type, next)) :
    WellAnchored known (fun _ => False)
      (next.modify id fun node => { node with resolvedType := some type }) := by
  obtain ⟨cause, -, h'⟩ | ⟨member, moved, hmember, hmoves, ⟨value, noted, hnotes, h'⟩ |
      ⟨-, cause, e, noted, -, h'⟩⟩ :=
    settleField_cases classes name (huntouched.isOpen hid hnone) hreceiver receiverType
  · cases h'.symm.trans hrun
  · cases h'.symm.trans hrun
    obtain ⟨child, hawaits, hsuits⟩ := hmoves.awaits hapart
      (h.awaits (huntouched.fresh id hnone) hnone hreceiver) htype rfl
      fun hstatic => (ClassRegistry.gives_of_findMember hmember).isStatic hstatic
    have hvalue : known value.type.name := by
      cases hnotes with
      | itself => exact hcovers.findMember hmember
      | value _ _ _ hget => exact hcovers.findMember hget
    exact hnotes.wellAnchored hapart hawaits hsuits hname (hcovers.findMember hmember) hvalue
      fun hwraps hget => hvalues.isStatic hmember hwraps hget
  · cases h'.symm.trans hrun

omit hvalues in
theorem wellAnchored_settleCall {name : String} {target : Nat} {targetType : ClassType}
    (htarget : (graph.node id).children[0]? = some target)
    (htype : (graph.node target).resolvedType = some targetType) (args : List ClassType)
    (hrun : (settleCall classes id name target targetType args).run.run graph = (.ok type, next)) :
    WellAnchored known (fun _ => False)
      (next.modify id fun node => { node with resolvedType := some type }) := by
  obtain ⟨cause, -, h'⟩ | ⟨member, moved, hmember, hmoves, h'⟩ :=
    settleCall_cases classes id name (huntouched.isOpen hid hnone) target targetType args
  · cases h'.symm.trans hrun
  · cases h'.symm.trans hrun
    obtain ⟨child, hawaits, hsuits⟩ := hmoves.awaits hapart
      (h.awaits (huntouched.fresh id hnone) hnone htarget) htype rfl
      fun hstatic => (ClassRegistry.gives_of_findMethod hmember).isStatic hstatic
    exact hawaits.resolved hsuits (hcovers.findMethod hmember)

/-- Settling the type of a node that is as it was registered anchors it if it is an access. -/
theorem wellAnchored_settle
    (htypes : List.Forall₂ (fun child type => (graph.node child).resolvedType = some type)
      (graph.node id).children types)
    (hrun : (settle classes id (graph.node id) types).run.run graph = (.ok type, next)) :
    WellAnchored known (fun _ => False)
      (next.modify id fun node => { node with resolvedType := some type }) := by
  obtain ⟨hreceiver, rfl, hknown⟩ | ⟨name, unwrap, _, _, hkind, hfirst, htype, hrun⟩ |
      ⟨name, _, _, args, -, hfirst, htype, hrun⟩ :=
    settle_cases hcovers (huntouched.fresh id hnone).accepts (fun i => (h.told i).typeName) htypes
      hrun
  · exact h.typed hreceiver hnone hknown
  · exact wellAnchored_settleField hapart hcovers hvalues huntouched h hid hnone
      ((h.told id).keyed.isName name unwrap hkind) hfirst htype hrun
  · exact wellAnchored_settleCall hapart hcovers huntouched h hid hnone hfirst htype args hrun

end

end GraphM

/-! ## Graphs that are built by requests -/

/-- The kinds of nodes without parts: variables that sources can name, literals, and classes of
known names or of names without points. -/
inductive Kind.Written (known : String → Prop) : Kind → Prop where
  | identifier {name : String} (h : IsName name.toList) : Written known (.identifier name)
  | symbol (value : Literal) : Written known (.symbol value.render value.typeName)
  | classRef {shortName q : String} (h : known q ∨ '.' ∉ q.toList) :
      Written known (.classRef shortName q)

theorem Kind.Written.accepts {known : String → Prop} {kind : Kind} (h : kind.Written known) :
    kind.Accepts 0 := by
  cases h <;> rfl

theorem Kind.Written.keyed {known : String → Prop} {kind : Kind} (h : kind.Written known)
    (hapart : Apart known) : kind.Keyed known (kind.key []).toList := by
  cases h with
  | identifier hname => exact keyed_atom (Expression.isAtom_ident hname) rfl rfl
  | symbol value =>
    have hkey : (Kind.symbol value.render value.typeName).Keyed known
        (Expression.ofLiteral value).key.toList :=
      keyed_atom (Expression.isAtom_ofLiteral value) rfl rfl
    rwa [Expression.key_ofLiteral] at hkey
  | classRef h => exact keyed_classRef hapart h

namespace Graph

open Operation

variable {known : String → Prop} {classes : ClassRegistry} {graph next : Graph}

/-- Expressions of sources over classes of known names are registered, and looked up in the
registry; and look-ups may fail if all wrappers of it have values. -/
def Terms.spelled (known : String → Prop) (classes : ClassRegistry) : Terms where
  leaf := Kind.Written known
  composed graph kind children := kind.Composes children.length ∧
    ∀ child ∈ children, child < graph.size ∧ Spelled known (graph.keyOf child).toList
  type type := known type.name
  registry other := other = classes
  fails := classes.ReadsWrappers

/-- Nodes without types are as they were registered, and accesses with types are anchored. -/
abbrev InForm (known : String → Prop) (graph : Graph) : Prop :=
  graph.Untouched ∧ WellAnchored known (fun _ => False) graph

theorem Terms.spelled_below : (spelled known classes).Below (plain classes.ReadsWrappers) where
  leaf := fun _ h => h.accepts
  composed := fun _ _ _ h => ⟨h.1.isPlain, h.1.accepts, fun child hchild => (h.2 child hchild).1⟩
  type := fun _ _ => trivial
  registry := by
    rintro _ rfl
    exact id
  fails := id

section

variable (hapart : Apart known)

include hapart

theorem wellAnchored_builds (h : (Terms.spelled known classes).Builds graph next)
    (hwell : WellAnchored known (fun _ => False) graph) :
    WellAnchored known (fun _ => False) next := by
  cases h with
  | register isOpen isNew writes =>
    obtain ⟨hwritten, rfl⟩ | ⟨hcomposes, hchildren⟩ := writes
    · refine hwell.push ⟨hwritten.keyed hapart, nofun, ?_⟩ nofun (fun _ => nofun) nofun
      rintro name rfl
      cases hwritten
    · have hspelled : ∀ key ∈ List.map graph.keyOf _, Spelled known key.toList :=
        List.forall_mem_map.mpr fun child hchild => (hchildren child hchild).2
      rw [← List.length_map graph.keyOf] at hcomposes
      refine hwell.push ⟨hcomposes.keyed hapart hspelled, nofun, ?_⟩
        (fun child hchild => (hchildren child hchild).1)
        (fun _ child hchild => (hchildren child hchild).2) nofun
      · exact fun name hkind => absurd hkind (hcomposes.ne_wrapper name)
  | addClass shortName imports isOpen isNew hknown =>
    exact hwell.imports hapart (.adds shortName imports isOpen isNew) hknown
  | annotate id annotates =>
    have hnode := Node.Annotated.of_eq (annotates (graph.node id))
    exact hwell.modify hnode.kind hnode.children
      (fun _ htype => hnode.resolvedType.trans htype)
      (fun _ htype => .inl (hnode.resolvedType.symm.trans htype))
      fun _ _ hsome => .inl ⟨hnode.resolvedType ▸ hsome, hnode.member⟩
  | importClass => exact hwell.of_nodes_eq rfl
  | advance => exact hwell.of_nodes_eq rfl

/-- Behind all requests, nodes without types are as they were registered, and accesses with types
are anchored. -/
theorem Grown.inForm (h : Grown (.spelled known classes) .empty graph)
    (hcovers : (Rules.written known (fun _ => True) True).Covers classes)
    (hvalues : classes.UnwrapsInstances) :
    InForm known graph := by
  have hgrown : Upholds (InForm known) .empty graph := by
    refine h.upholds Terms.spelled_below
      (fun _ _ hbuilds => wellAnchored_builds hapart hbuilds) ?_ ?_
      fun _ _ hnodes hwell => hwell.of_nodes_eq hnodes
    · rintro _ rfl graph next id types type huntouched hwell hid hnone htypes hrun
      exact GraphM.wellAnchored_settle hapart hcovers hvalues huntouched hwell hid hnone htypes hrun
    · exact fun _ _ _ hwell =>
        hwell.modify rfl rfl (fun _ h => h) (fun _ => .inl) fun _ _ hsome => .inl ⟨hsome, rfl⟩
  exact hgrown ⟨untouched_empty, wellAnchored_empty⟩

end

end Graph
end BindingPlan
