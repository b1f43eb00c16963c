import BindingPlan.Proofs.Graph.Grown
import BindingPlan.Proofs.Graph.Spared
import BindingPlan.Proofs.Key.Plain

/-!
# Nodes as they were registered

Resolving a node gives types to nodes below it, and to nodes that read wrappers below it. A node
that has no type yet is as it was registered: its links have not moved. This holds behind failures
as well, if the class of every wrapper has a member that gives the wrapper's value: then a look-up
that fails comes before any link moves.

Main results:

* `Graph.Fresh`, `Graph.Untouched`: nodes without types are as they were registered.
* `GraphM.spares_resolveWithin`: resolving a node spares the nodes that have longer keys.
* `Graph.Grown.untouched`: nodes without types are as they were registered, in graphs that are built
  by requests.
-/

namespace BindingPlan

namespace ClassRegistry

/-- The class of every wrapper has a member that gives the wrapper's value. -/
def ReadsWrappers (classes : ClassRegistry) : Prop :=
  ∀ c ∈ classes.classes, (classes.typeOf c).observableField = true →
    (classes.findMember (classes.typeOf c) "get" false).isOk = true

instance (classes : ClassRegistry) : Decidable classes.ReadsWrappers :=
  inferInstanceAs (Decidable (∀ c ∈ classes.classes, (classes.typeOf c).observableField = true →
    (classes.findMember (classes.typeOf c) "get" false).isOk = true))

theorem ReadsWrappers.exists_value {classes : ClassRegistry} (h : classes.ReadsWrappers)
    {owner : ClassType} {name : String} {staticOnly : Bool} {member : Member}
    (hmember : classes.findMember owner name staticOnly = .ok member)
    (hwraps : member.type.observableField = true) :
    ∃ value, classes.findMember member.type "get" false = .ok value := by
  obtain ⟨c, hc, htype⟩ := exists_typeOf_of_findMember hmember
  rw [← htype] at hwraps ⊢
  have hok := h c hc hwraps
  generalize classes.findMember (classes.typeOf c) "get" false = result at hok
  obtain _ | value := result
  · cases hok
  · exact ⟨value, rfl⟩

end ClassRegistry

namespace Graph

variable {graph next : Graph} {busy : Nat → Prop} {sets : String → Prop} {i id : Nat}

/-! ## Nodes as they were registered -/

/-- The node is as it was registered: a plain one over nodes in front of it. -/
structure Fresh (graph : Graph) (i : Nat) : Prop where
  plain : (graph.node i).kind.IsPlain
  accepts : (graph.node i).kind.Accepts (graph.node i).children.length
  ordered : ∀ child ∈ (graph.node i).children, child < i
  key : graph.keyOf i = (graph.node i).kind.key ((graph.node i).children.map graph.keyOf)

/-- Nodes without types are as they were registered, and there is none in a sealed graph. -/
structure Untouched (graph : Graph) : Prop where
  frozen : graph.isSealed = true → graph.AllResolved
  fresh : ∀ i, (graph.node i).resolvedType = none → graph.Fresh i

theorem Untouched.isOpen (h : graph.Untouched) (hi : i < graph.size)
    (hnone : (graph.node i).resolvedType = none) : graph.isSealed = false := by
  by_contra hsealed
  have hresolved := h.frozen (Bool.eq_true_of_not_eq_false hsealed) i hi
  rw [hnone] at hresolved
  cases hresolved

theorem fresh_of_size_le (h : graph.size ≤ i) : graph.Fresh i := by
  have hnode : graph.node i = default := node_of_size_le h
  constructor
  · rw [hnode]
    trivial
  · rw [hnode]
    rfl
  · rw [hnode]
    exact nofun
  · unfold Graph.keyOf
    rw [hnode]
    rfl

theorem Fresh.congr (h : graph.Fresh i) (hkind : (next.node i).kind = (graph.node i).kind)
    (hchildren : (next.node i).children = (graph.node i).children)
    (hkey : next.keyOf i = graph.keyOf i)
    (hkeys : ∀ child ∈ (graph.node i).children, next.keyOf child = graph.keyOf child) :
    next.Fresh i where
  plain := hkind ▸ h.plain
  accepts := by
    rw [hkind, hchildren]
    exact h.accepts
  ordered := hchildren ▸ h.ordered
  key := by
    rw [hkey, hkind, hchildren, h.key]
    exact congrArg _ (List.map_congr_left fun child hchild => (hkeys child hchild).symm)

/-- What has no type behind it is as fresh as before. -/
theorem Spares.fresh (h : graph.Spares busy sets next) (hi : i < graph.size) (hbusy : ¬ busy i)
    (hnone : (next.node i).resolvedType = none) (hfresh : graph.Fresh i) : next.Fresh i := by
  have hsame := h.same i hi hbusy hnone
  exact hfresh.congr (congrArg Node.kind hsame :) (congrArg Node.children hsame :) (h.keyOf i hi)
    fun child hchild => h.keyOf child (Nat.lt_trans (hfresh.ordered child hchild) hi)

theorem Untouched.spares (h : graph.Untouched)
    (hspares : graph.Spares (fun _ => False) sets next) : next.Untouched where
  frozen := by
    intro hsealed
    rw [hspares.isSealed] at hsealed
    exact (h.frozen hsealed).mono hspares.settles
  fresh := by
    intro i hnone
    rcases Nat.lt_or_ge i next.size with hlt | hge
    · rcases Nat.lt_or_ge i graph.size with hi | hi
      · exact hspares.fresh hi id hnone
          (h.fresh i (hspares.settles.remembers.unresolved hnone))
      · have hresolved := hspares.settles.resolved i hi hlt
        rw [hnone] at hresolved
        cases hresolved
    · exact fresh_of_size_le hge

/-- The keys of the nodes that may get a type while the node is resolved, none if it has one. -/
def Sets (graph : Graph) (id : Nat) (key : String) : Prop :=
  (graph.node id).resolvedType = none ∧ (graph.node id).kind.Sets (graph.keyOf id) key

theorem Spares.sets_of_sets (h : graph.Spares busy sets next) (hi : i < graph.size) {key : String}
    (hsets : next.Sets i key) : graph.Sets i key := by
  obtain ⟨hnone, hsets⟩ := hsets
  rw [h.kind i hi, h.keyOf i hi] at hsets
  exact ⟨h.settles.remembers.unresolved hnone, hsets⟩

/-- No node gets a type while a child of it is resolved. -/
theorem Untouched.not_sets (h : graph.Untouched) (hnone : (graph.node i).resolvedType = none)
    {child : Nat} (hchild : child ∈ (graph.node i).children) :
    ¬ graph.Sets child (graph.keyOf i) := by
  rintro ⟨hwaits, hsets⟩
  have hfresh := h.fresh i hnone
  have hpart := h.fresh child hwaits
  rw [hfresh.key, hpart.key] at hsets
  refine hfresh.plain.not_sets ?_ ?_ hpart.plain ?_ hsets
  · rw [List.length_map]
    exact hfresh.accepts
  · rw [← hpart.key]
    exact List.mem_map_of_mem hchild
  · rw [List.length_map]
    exact hpart.accepts

/-- A node has no type yet while its children are resolved. -/
theorem Untouched.waits (h : graph.Untouched) (hi : i < graph.size)
    (hnone : (graph.node i).resolvedType = none)
    (hspares : graph.Spares busy (fun key => ∃ child ∈ (graph.node i).children,
      graph.Sets child key) next) : (next.node i).resolvedType = none :=
  (hspares.filled i hi hnone).resolve_right fun ⟨_, hchild, hsets⟩ =>
    h.not_sets hnone hchild hsets

/-- What gets a type below a child gets it below the node. -/
theorem Untouched.sets_of_child (h : graph.Untouched) (hnone : (graph.node i).resolvedType = none)
    {child : Nat} (hchild : child ∈ (graph.node i).children) {key : String}
    (hsets : graph.Sets child key) : graph.Sets i key := by
  have hfresh := h.fresh i hnone
  refine ⟨hnone, hsets.2.of_child ?_ ?_⟩
  · rw [hfresh.key]
    refine Kind.length_lt_key ?_ (List.mem_map_of_mem hchild)
    rw [List.length_map]
    exact hfresh.accepts
  · have haccepts := hfresh.accepts
    cases hkind : (graph.node i).kind with
    | identifier | classRef | symbol =>
      rw [hkind] at haccepts
      rw [List.length_eq_zero_iff.mp haccepts] at hchild
      cases hchild
    | _ => rfl

end Graph

/-! ## Resolving -/

namespace GraphM

open BindingPlan.Graph Operation

variable {classes : ClassRegistry} {graph next : Graph} {fails : Prop} {id bound : Nat}

/-- Settling a type reads nothing of the node but what it was registered and declared with. -/
theorem settle_congr {node other : Node} (h : node.unlinked = other.unlinked)
    (types : List ClassType) : settle classes id node types = settle classes id other types := by
  show settle classes id node.unlinked types = settle classes id other.unlinked types
  rw [h]

/-- How settling the type of a node ends: it fails and has changed nothing, or it succeeds and has
given types to other nodes only where they read wrappers, or the value of a wrapper is not found. -/
inductive Ends (classes : ClassRegistry) (graph : Graph) (id : Nat) :
    Except GraphError ClassType × Graph → Prop where
  | fails (cause : ResolveError) :
      Ends classes graph id (.error (graph.resolutionError id cause), graph)
  | succeeds {next : Graph} (type : ClassType)
      (spares : graph.Spares (· = id) ((graph.node id).kind.Sets (graph.keyOf id)) next) :
      Ends classes graph id (.ok type, next)
  | breaks {e : GraphError} {next : Graph} (h : ¬ classes.ReadsWrappers) :
      Ends classes graph id (.error e, next)

theorem ends_lookup (result : Except ResolveError ClassType) :
    Ends classes graph id ((lookup id result).run.run graph) := by
  cases result with
  | error cause => exact .fails cause
  | ok type => exact .succeeds type (.refl graph)

theorem ends_settleField {name : String} {receiver : Nat} (hopen : graph.isSealed = false)
    (hname : IsPlainName name) (hreceiver : (graph.node id).children[0]? = some receiver)
    (hlt : receiver < graph.size) (hleaf : (graph.node id).kind.isLeaf = false)
    (hkey : graph.keyOf id = graph.keyOf receiver ++ "." ++ name) (type : ClassType) :
    Ends classes graph id ((settleField classes id name receiver type).run.run graph) := by
  obtain ⟨cause, -, hrun⟩ | ⟨member, moved, hmember, hmoves, ⟨value, next, hnotes, hrun⟩ |
      ⟨hwraps, cause, e, next, hget, hrun⟩⟩ := settleField_cases classes name hopen hreceiver type
  · rw [hrun]
    exact .fails cause
  · rw [hrun]
    refine .succeeds value.type (hmoves.spares.trans (hnotes.spares fun receiver' hreceiver' => ?_))
    obtain ⟨_, hmoved, hcases⟩ := hmoves.getElem? hreceiver
    cases hmoved.symm.trans hreceiver'
    refine .wrapper hleaf hname ?_
    -- the wrapper is read on the receiver, or on the class that the access has moved to
    obtain ⟨-, rfl⟩ | ⟨-, hclass⟩ := hcases
    · have hspares : graph.Spares (· = id) (fun _ => True) moved := hmoves.spares
      rw [hspares.keyOf _ hlt]
      exact .inl (.inl hkey.symm)
    · rw [keyOf_of_find? hclass, Kind.classKey, String.toList_append]
      exact .inr (List.prefix_append _ _)
  · rw [hrun]
    refine .breaks fun hreads => ?_
    obtain ⟨value, hvalue⟩ := hreads.exists_value hmember hwraps
    cases hvalue.symm.trans hget

theorem ends_settleCall (hopen : graph.isSealed = false) (name : String) (target : Nat)
    (type : ClassType) (args : List ClassType) :
    Ends classes graph id ((settleCall classes id name target type args).run.run graph) := by
  obtain ⟨cause, -, hrun⟩ | ⟨member, moved, -, hmoves, hrun⟩ :=
    settleCall_cases classes id name hopen target type args
  · rw [hrun]
    exact .fails cause
  · rw [hrun]
    exact .succeeds member.type (hmoves.spares.trans (spares_member member))

/-- Settling the type of a node that is as it was registered. -/
theorem ends_settle (hopen : id < graph.size → graph.isSealed = false) (hfresh : graph.Fresh id)
    (types : List ClassType) :
    Ends classes graph id ((settle classes id (graph.node id) types).run.run graph) := by
  have haccepts := hfresh.accepts
  unfold settle
  dsimp only
  cases hkind : (graph.node id).kind with
  | identifier name =>
    cases (graph.node id).declaredType with
    | none => exact ends_lookup _
    | some type => exact ends_lookup _
  | classRef | symbol => exact ends_lookup _
  | field name unwrap =>
    have hplain := hfresh.plain
    have hkey := hfresh.key
    rw [hkind] at haccepts hplain hkey
    obtain ⟨rfl, hname⟩ := hplain
    obtain ⟨receiver, hchildren⟩ := List.length_eq_one_iff.mp haccepts
    have hreceiver : (graph.node id).children[0]? = some receiver := by rw [hchildren]; rfl
    have hmem := List.mem_of_getElem? hreceiver
    have hid := lt_size_of_children hmem
    rw [hchildren] at hkey ⊢
    exact ends_settleField (hopen hid) hname hreceiver
      (Nat.lt_trans (hfresh.ordered receiver hmem) hid) (by rw [hkind]; rfl) hkey _
  | call name =>
    rw [hkind] at haccepts
    have hid : id < graph.size :=
      lt_size_of_children
        (List.getElem_mem (show 0 < (graph.node id).children.length from haccepts))
    exact ends_settleCall (hopen hid) _ _ _ _
  | binary op => cases op <;> exact .succeeds _ (.refl graph)
  | unary op => cases op <;> exact .succeeds _ (.refl graph)
  | ternary => exact .succeeds _ (.refl graph)

/-! ## Whole walks -/

section

variable (hreads : fails → classes.ReadsWrappers)

/-- Resolving nodes one after the other spares what resolving each of them spares. -/
theorem spares_mapM {operation : Nat → GraphM ClassType}
    (h : ∀ graph id, graph.Untouched → (fails ∨ ((operation id).run.run graph).1.isOk = true) →
      graph.Spares (fun _ => False) (graph.Sets id) ((operation id).run.run graph).2)
    {ids : List Nat} (hids : ∀ id ∈ ids, id < graph.size) (huntouched : graph.Untouched)
    (hok : fails ∨ ((ids.mapM operation).run.run graph).1.isOk = true) :
    graph.Spares (fun _ => False) (fun key => ∃ id ∈ ids, graph.Sets id key)
      ((ids.mapM operation).run.run graph).2 := by
  induction ids generalizing graph with
  | nil =>
    rw [List.mapM_nil]
    exact .refl graph
  | cons id ids ih =>
    rw [List.mapM_cons] at hok ⊢
    refine keepsIf_bind_of (h graph id huntouched)
      (fun _ hspares => hspares.imp fun _ hsets => ⟨id, List.mem_cons_self, hsets⟩)
      (fun _ next _ hspares hok => ?_) hok
    have hrest := ih
      (fun id hid => Nat.lt_of_lt_of_le (hids id (List.mem_cons_of_mem _ hid))
        hspares.settles.size_le) (huntouched.spares hspares)
    have hall (last : Graph) (hmore : next.Spares (fun _ => False)
        (fun key => ∃ id ∈ ids, next.Sets id key) last) :
        graph.Spares (fun _ => False) (fun key => ∃ other ∈ id :: ids, graph.Sets other key)
          last := by
      refine (hspares.imp fun _ hsets => ⟨id, List.mem_cons_self, hsets⟩).trans
        (hmore.imp ?_)
      rintro key ⟨other, hother, hsets⟩
      have hother := List.mem_cons_of_mem id hother
      exact ⟨other, hother, hspares.sets_of_sets (hids other hother) hsets⟩
    rw [run_bind] at hok ⊢
    generalize (ids.mapM operation).run.run next = outcome at hrest hok ⊢
    obtain ⟨_ | _, last⟩ := outcome
    · exact hall last (hrest hok)
    · exact hall last (hrest (.inr rfl))

include hreads

/-- Resolving a node leaves other nodes without types as they are, and gives types only to nodes
with keys that are short, or those of wrappers. -/
theorem spares_resolveWithin (bound : Nat) (huntouched : graph.Untouched)
    (hok : fails ∨ ((resolveWithin classes bound id).run.run graph).1.isOk = true) :
    graph.Spares (fun _ => False) (graph.Sets id)
      ((resolveWithin classes bound id).run.run graph).2 := by
  induction bound generalizing graph id with
  | zero => exact .refl graph
  | succ bound ih =>
    obtain ⟨outcome, hrun⟩ | ⟨hid, hnone⟩ := resolveWithin_cases classes graph bound id
    · rw [hrun]
      exact .refl graph
    · have hfresh := huntouched.fresh id hnone
      rw [run_resolveWithin hfresh.accepts hnone] at hok ⊢
      have hchild {key : String} (h : ∃ child ∈ (graph.node id).children, graph.Sets child key) :
          graph.Sets id key := by
        obtain ⟨child, hchild, hsets⟩ := h
        exact huntouched.sets_of_child hnone hchild hsets
      refine keepsIf_bind_of (spares_mapM (fun _ _ => ih)
        (fun child hchild => Nat.lt_trans (hfresh.ordered child hchild) hid) huntouched)
        (fun _ hbelow => hbelow.imp fun _ => hchild) (fun types below _ hbelow hok => ?_) hok
      -- the node itself has no type yet, so its links are still those that it was registered with
      have hwaits := huntouched.waits hid hnone hbelow
      have huntouched' := huntouched.spares hbelow
      rw [settle_congr (hbelow.same id hid (fun h => h) hwaits).symm types, run_bind] at hok ⊢
      have hends : Ends classes below id _ :=
        ends_settle (fun hlt => huntouched'.isOpen hlt hwaits) (huntouched'.fresh id hwaits) types
      generalize (settle classes id (below.node id) types).run.run below = outcome at hends hok ⊢
      cases hends with
      | fails => exact hbelow.imp fun _ => hchild
      | succeeds type spares =>
        have hsettled : graph.Spares (· = id) (graph.Sets id) _ :=
          (hbelow.imp fun _ => hchild).of_free.trans
            (spares.imp fun key hsets => hbelow.sets_of_sets hid ⟨hwaits, hsets⟩)
        exact hsettled.resolved type hnone ⟨hnone, .self⟩
      | breaks h => exact absurd (hreads (hok.resolve_right Bool.false_ne_true)) h

/-- What settling the type of a node keeps that is as it was registered, over children with types,
resolving nodes keeps. -/
theorem upholds_resolveWithin {holds : Graph → Prop}
    (hsettle : ∀ (graph next : Graph) id types type, graph.Untouched → holds graph →
      id < graph.size → (graph.node id).resolvedType = none →
      List.Forall₂ (fun child type => (graph.node child).resolvedType = some type)
        (graph.node id).children types →
      (settle classes id (graph.node id) types).run.run graph = (.ok type, next) →
      holds (next.modify id fun node => { node with resolvedType := some type }))
    (bound id : Nat) :
    KeepsIf fails (Upholds fun graph => graph.Untouched ∧ holds graph)
      (resolveWithin classes bound id) := by
  induction bound generalizing id with
  | zero => exact (keeps_bind keeps_get fun _ => keeps_throw _).keepsIf
  | succ bound ih =>
    rintro graph hok ⟨huntouched, hholds⟩
    refine ⟨huntouched.spares (spares_resolveWithin hreads _ huntouched hok), ?_⟩
    obtain ⟨outcome, hrun⟩ | ⟨hid, hnone⟩ := resolveWithin_cases classes graph bound id
    · rw [hrun]
      exact hholds
    · have hfresh := huntouched.fresh id hnone
      have hids : ∀ child ∈ (graph.node id).children, child < graph.size :=
        fun child hchild => Nat.lt_trans (hfresh.ordered child hchild) hid
      rw [run_resolveWithin hfresh.accepts hnone] at hok ⊢
      have hbelow (hok : fails ∨ (((graph.node id).children.mapM
          (resolveWithin classes bound)).run.run graph).1.isOk = true) :=
        And.intro (keepsIf_mapM ih _ graph hok ⟨huntouched, hholds⟩).2
          (spares_mapM (fun _ _ => spares_resolveWithin hreads bound) hids huntouched hok)
      rw [run_bind] at hok ⊢
      generalize hchildren : ((graph.node id).children.mapM
        (resolveWithin classes bound)).run.run graph = outcome at hbelow hok ⊢
      obtain ⟨_ | types, below⟩ := outcome
      · exact (hbelow hok).1
      obtain ⟨hholds', hspares⟩ := hbelow (.inr rfl)
      have hwaits := huntouched.waits hid hnone hspares
      have huntouched' := huntouched.spares hspares
      have hsame := hspares.same id hid (fun h => h) hwaits
      have hlinks : (below.node id).children = (graph.node id).children :=
        (congrArg Node.children hsame :)
      have htypes := resolved_of_run_mapM hids hchildren
      rw [← hlinks] at htypes
      dsimp only at hok ⊢
      rw [settle_congr hsame.symm types, run_bind] at hok ⊢
      have hends : Ends classes below id _ :=
        ends_settle (fun hlt => huntouched'.isOpen hlt hwaits) (huntouched'.fresh id hwaits) types
      generalize hrun : (settle classes id (below.node id) types).run.run below = outcome
        at hends hok ⊢
      cases hends with
      | fails => exact hholds'
      | succeeds type =>
        exact hsettle below _ id types type huntouched' hholds'
          (Nat.lt_of_lt_of_le hid hspares.settles.size_le) hwaits htypes hrun
      | breaks h => exact absurd (hreads (hok.resolve_right Bool.false_ne_true)) h

end

theorem untouched_set_dynamic (graph : Graph) (id : Nat) (dynamic : Bool) :
    Upholds Untouched graph
      (graph.modify id fun node => { node with dynamic := some dynamic }) := by
  refine fun h => ⟨fun hsealed i hi => ?_, fun i hnone => ?_⟩
  · rw [size_modify] at hi
    rw [eq_of_modify Node.resolvedType rfl]
    exact h.frozen hsealed i hi
  · rw [eq_of_modify Node.resolvedType rfl] at hnone
    exact (h.fresh i hnone).congr (eq_of_modify Node.kind rfl i) (eq_of_modify Node.children rfl i)
      (eq_of_modify Node.key rfl i) fun child _ => eq_of_modify Node.key rfl child

theorem untouched_freeze (graph : Graph) (state : Sealed) (h : graph.AllResolved) :
    Upholds Untouched graph { graph with sealed? := some state } :=
  fun huntouched => ⟨fun _ => h, fun i hnone => (huntouched.fresh i hnone).congr rfl rfl rfl
    fun _ _ => rfl⟩

end GraphM

/-! ## Graphs that are built by requests -/

namespace Graph

open Operation

variable {graph next : Graph} {fails : Prop}

/-- Plain nodes are registered over nodes; and look-ups may fail, but then the values of wrappers
are found. -/
def Terms.plain (fails : Prop) : Terms where
  leaf kind := kind.Accepts 0
  composed graph kind children :=
    kind.IsPlain ∧ kind.Accepts children.length ∧ ∀ child ∈ children, child < graph.size
  type _ := True
  registry classes := fails → classes.ReadsWrappers
  fails := fails

theorem untouched_empty : Untouched .empty where
  frozen := nofun
  fresh := fun i _ => fresh_of_size_le (Nat.zero_le i)

theorem Untouched.register {kind : Kind} {children : List Nat} (h : graph.Untouched)
    (hopen : graph.isSealed = false) (hwrites : (Terms.plain fails).Writes graph kind children) :
    (graph.push (.new kind (kind.key (children.map graph.keyOf)) children)).Untouched where
  frozen := by
    intro hsealed
    rw [isSealed_push, hopen] at hsealed
    cases hsealed
  fresh := by
    intro i hnone
    have hkeyOf {i : Nat} (hi : i < graph.size) :
        (graph.push (.new kind (kind.key (children.map graph.keyOf)) children)).keyOf i =
          graph.keyOf i :=
      eq_of_push Node.key (fun _ _ => rfl) hi
    rcases Nat.lt_trichotomy i graph.size with hi | rfl | hi
    · have hfresh := h.fresh i (resolvedType_push hi ▸ hnone)
      exact hfresh.congr (kind_push hi) (children_push hi) (hkeyOf hi)
        fun child hchild => hkeyOf (Nat.lt_trans (hfresh.ordered child hchild) hi)
    · obtain ⟨hplain, haccepts, hlt⟩ : kind.IsPlain ∧ kind.Accepts children.length ∧
          ∀ child ∈ children, child < graph.size := by
        obtain ⟨haccepts, rfl⟩ | hcomposed := hwrites
        · refine ⟨?_, haccepts, nofun⟩
          cases kind with
          | field => cases haccepts
          | _ => trivial
        · exact hcomposed
      refine ⟨?_, ?_, ?_, ?_⟩
      · rwa [node_push_self]
      · rwa [node_push_self]
      · rwa [node_push_self]
      · have hkeys := List.map_congr_left fun child hchild => hkeyOf (hlt child hchild)
        rw [node_push_self]
        exact (congrArg Node.key node_push_self).trans (congrArg kind.key hkeys.symm)
    · refine fresh_of_size_le ?_
      rw [size_push]
      exact hi

/-- Building registers nodes, and touches none that is there. -/
theorem untouched_builds (h : (Terms.plain fails).Builds graph next) :
    Upholds Untouched graph next := by
  intro huntouched
  cases h with
  | register isOpen _ writes => exact huntouched.register isOpen writes
  | addClass shortName imports =>
    exact huntouched.spares ((spares_imports imports).trans (spares_push rfl) :
      graph.Spares (fun _ => False) (fun _ => True) _)
  | annotate id annotates =>
    have hnode := Node.Annotated.of_eq (annotates (graph.node id))
    have htype := eq_of_modify Node.resolvedType hnode.resolvedType
    refine ⟨fun hsealed i hi => ?_, fun i hnone => ?_⟩
    · rw [size_modify] at hi
      rw [htype]
      exact huntouched.frozen hsealed i hi
    · rw [htype] at hnone
      exact (huntouched.fresh i hnone).congr (eq_of_modify Node.kind hnode.kind i)
        (eq_of_modify Node.children hnode.children i) (keyOf_modify _ id i)
        fun child _ => keyOf_modify _ id child
  | importClass imports =>
    exact huntouched.spares (spares_imports imports :
      graph.Spares (fun _ => False) (fun _ => True) _)
  | advance sealed? same =>
    refine ⟨fun hsealed => huntouched.frozen (same ▸ hsealed), fun i hnone => ?_⟩
    exact (huntouched.fresh i hnone).congr rfl rfl rfl fun _ _ => rfl

/-- Nodes without types are as they were registered, and what building, settling the types of such
nodes and classifying them keep still holds. -/
theorem Grown.upholds {terms : Terms} {holds : Graph → Prop} {first : Graph}
    (h : Grown terms first graph) (hbelow : terms.Below (.plain terms.fails))
    (hbuilds : ∀ graph next, terms.Builds graph next → holds graph → holds next)
    (hsettle : ∀ classes, terms.registry classes → ∀ (graph next : Graph) id types type,
      graph.Untouched → holds graph → id < graph.size → (graph.node id).resolvedType = none →
      List.Forall₂ (fun child type => (graph.node child).resolvedType = some type)
        (graph.node id).children types →
      (GraphM.settle classes id (graph.node id) types).run.run graph = (.ok type, next) →
      holds (next.modify id fun node => { node with resolvedType := some type }))
    (hdynamic : ∀ (graph : Graph) id dynamic, holds graph →
      holds (graph.modify id fun node => { node with dynamic := some dynamic }))
    (hnodes : ∀ graph next : Graph, next.nodes = graph.nodes → holds graph → holds next) :
    Upholds (fun graph => graph.Untouched ∧ holds graph) first graph := by
  have hresolve (classes : ClassRegistry) (hregistry : terms.registry classes) (id : Nat) :
      KeepsIf terms.fails (Upholds fun graph => graph.Untouched ∧ holds graph)
        (GraphM.resolve classes id) :=
    keepsIf_bind keeps_get.keepsIf fun _ => GraphM.upholds_resolveWithin
      (hbelow.registry classes hregistry) (hsettle classes hregistry) _ id
  have hset (graph : Graph) (id : Nat) (dynamic : Bool) :
      Upholds (fun graph => graph.Untouched ∧ holds graph) graph
        (graph.modify id fun node => { node with dynamic := some dynamic }) :=
    fun h => ⟨GraphM.untouched_set_dynamic graph id dynamic h.1, hdynamic graph id dynamic h.2⟩
  have hfreeze (graph : Graph) (state : Sealed) (hall : graph.AllResolved) :
      Upholds (fun graph => graph.Untouched ∧ holds graph) graph
        { graph with sealed? := some state } :=
    fun h => ⟨GraphM.untouched_freeze graph state hall h.1, hnodes graph _ rfl h.2⟩
  refine h.keeps (fun graph next hbuild h => ⟨untouched_builds (hbuild.mono hbelow) h.1,
      hbuilds graph next hbuild h.2⟩) ?_ ?_ ?_
  · exact fun graph classes id hpermits => hresolve classes hpermits.1 id graph hpermits.2
  · exact fun graph classes id hpermits =>
      GraphM.keepsIf_classify (hresolve classes hpermits.1) hset id graph hpermits.2
  · exact fun graph classes hpermits =>
      GraphM.keepsIf_sealGraph (hresolve classes hpermits.1) hset hfreeze graph hpermits.2

/-- In a graph of plain nodes, those without types are as they were registered. -/
theorem Grown.untouched (h : Grown (.plain fails) .empty graph) : graph.Untouched := by
  have hplain : (Terms.plain fails).Below (.plain fails) :=
    ⟨fun _ h => h, fun _ _ _ h => h, fun _ h => h, fun _ h => h, fun h => h⟩
  have hgrown : Upholds (fun graph => graph.Untouched ∧ True) .empty graph :=
    h.upholds hplain (fun _ _ _ h => h) (fun _ _ _ _ _ _ _ _ h _ _ _ _ => h) (fun _ _ _ h => h)
      fun _ _ _ h => h
  exact (hgrown ⟨untouched_empty, trivial⟩).1

end Graph
end BindingPlan
