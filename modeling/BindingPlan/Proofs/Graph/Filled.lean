import BindingPlan.Proofs.Graph.Traced

/-!
# Graphs that lack types at names only

Where every binding has its type, at most variables and references of classes are without one: those
that no binding reads. Then sealing looks up no member and no operator any more, and it fails only
where the class of a variable or of a reference is not found.

Main results:

* `Graph.Filled`: graphs in which only variables and classes lack types.
* `GraphM.guards_resolve`: looking up one of these types.
* `GraphM.guards_sealGraph`: sealing such a graph, and the errors that it may end with.
-/

namespace BindingPlan

/-- The node is a declared variable whose type has the name, or a reference of the class of the
name. -/
inductive Node.StandsFor (isVariable : String → Prop) (node : Node) (name : String) : Prop where
  | ofVariable {x : String} (kind : node.kind = .identifier x)
      (declaredType : node.declaredType = some name) (isDeclared : isVariable x)
  | ofClass {shortName : String} (kind : node.kind = .classRef shortName name)

/-- If the error is about a node, then that is a variable or a class whose name is not found. -/
def GraphError.NamesClass (isVariable : String → Prop) (e : GraphError) (graph : Graph) : Prop :=
  ∀ key span cause, e = .resolution key span cause → ∃ name, cause = .unknownClass name ∧
    ∃ i < graph.size, graph.keyOf i = key ∧ (graph.node i).span = span ∧
      (graph.node i).resolvedType = none ∧ (graph.node i).StandsFor isVariable name

theorem GraphError.namesClass_alreadySealed {isVariable : String → Prop} {graph : Graph} :
    alreadySealed.NamesClass isVariable graph :=
  nofun

theorem GraphError.namesClass_cycle {isVariable : String → Prop} {graph : Graph} {key : String} :
    (dependencyCycle key).NamesClass isVariable graph :=
  nofun

namespace Graph

variable {known isVariable isNextVariable : String → Prop} {graph next : Graph} {i id : Nat}

/-! ## Declared types -/

/-- Nodes that have declared types still have some. -/
def KeepsDeclared (graph next : Graph) : Prop :=
  ∀ i, (graph.node i).declaredType.isSome → (next.node i).declaredType.isSome

instance : IsPreorder Graph KeepsDeclared where
  refl _ := fun _ h => h
  trans _ _ _ h h' := fun i hi => h' i (h i hi)

theorem keepsDeclared_modify {change : Node → Node}
    (h : (graph.node id).declaredType.isSome → (change (graph.node id)).declaredType.isSome) :
    graph.KeepsDeclared (graph.modify id change) := by
  intro i hi
  rw [node_modify]
  split
  · next heq => exact heq.1 ▸ h (heq.1 ▸ hi)
  · exact hi

theorem allows_keepsDeclared : Allows KeepsDeclared where
  push := by
    intro graph kind key children i hi
    have hlt : i < graph.size := by
      by_contra hge
      rw [node_of_size_le (Nat.le_of_not_lt hge)] at hi
      cases hi
    rwa [eq_of_push Node.declaredType (fun _ _ => rfl) hlt]
  annotate := fun _ _ _ h => keepsDeclared_modify (h _).declaredType
  replaceChild := by
    intro graph parent position child i hi
    rwa [eq_of_replaceChild Node.declaredType (fun _ _ => rfl) fun _ _ => rfl]
  importClass := fun _ _ _ h => h
  freeze := fun _ _ _ h => h
  resolved := fun _ _ _ h => trans_of KeepsDeclared h (keepsDeclared_modify fun hsome => hsome)
  classified := fun _ _ _ h => trans_of KeepsDeclared h (keepsDeclared_modify fun hsome => hsome)

/-! ## Nodes without types -/

/-- Every node has its type, or it is a variable or a class. -/
structure Filled (known isVariable : String → Prop) (graph : Graph) : Prop where
  linked : graph.Linked
  untouched : graph.Untouched
  traced : Traced known graph
  standsFor : ∀ i < graph.size, (graph.node i).resolvedType = none →
    ∃ name, (graph.node i).StandsFor isVariable name

theorem filled_empty : Filled known isVariable .empty where
  linked := linked_empty
  untouched := untouched_empty
  traced := traced_empty
  standsFor := fun _ h => absurd h (Nat.not_lt_zero _)

/-- What lacks a type stays a variable or a class. -/
theorem Filled.mono (h : Filled known isVariable graph)
    (hsteps : (Rules.any fun _ => True).Steps graph next)
    (hnext : next.Untouched ∧ Traced known next) (hdeclared : graph.KeepsDeclared next)
    (hvariables : ∀ x, isVariable x → isNextVariable x)
    (hnew : ∀ i, graph.size ≤ i → i < next.size → (next.node i).resolvedType = none →
      ∃ name, (next.node i).StandsFor isNextVariable name) : Filled known isNextVariable next where
  linked := h.linked.steps hsteps
  untouched := hnext.1
  traced := hnext.2
  standsFor := by
    intro i hi hnone
    rcases Nat.lt_or_ge i graph.size with hlt | hge
    · have hwaits : (graph.node i).resolvedType = none := by
        by_contra hsome
        have hresolved := Rules.Steps.resolved hsteps (Option.isSome_iff_ne_none.mpr hsome)
        rw [hnone] at hresolved
        cases hresolved
      have hkind := Rules.Steps.kind hsteps hlt
      obtain ⟨name, hname⟩ := h.standsFor i hlt hwaits
      cases hname with
      | ofVariable kind declaredType isDeclared =>
        have hsome := hdeclared i (Option.isSome_of_eq_some declaredType)
        obtain ⟨type, htype⟩ := Option.isSome_iff_exists.mp hsome
        exact ⟨type, .ofVariable (hkind.trans kind) htype (hvariables _ isDeclared)⟩
      | ofClass kind => exact ⟨name, .ofClass (hkind.trans kind)⟩
    · exact hnew i hge hi hnone

/-- No node is added. -/
theorem Filled.of_size_eq (h : Filled known isVariable graph)
    (hsteps : (Rules.any fun _ => True).Steps graph next)
    (hnext : next.Untouched ∧ Traced known next) (hdeclared : graph.KeepsDeclared next)
    (hsize : next.size = graph.size) : Filled known isVariable next :=
  h.mono hsteps hnext hdeclared (fun _ h => h) fun _ hge hi =>
    absurd (hsize ▸ hi) (Nat.not_lt_of_ge hge)

theorem Filled.setDynamic (h : Filled known isVariable graph) (id : Nat) (dynamic : Bool) :
    Filled known isVariable
      (graph.modify id fun node => { node with dynamic := some dynamic }) :=
  h.of_size_eq (.single (.annotate (.of_eq rfl)))
    ⟨GraphM.untouched_set_dynamic graph id dynamic h.untouched, h.traced.setDynamic id dynamic⟩
    (keepsDeclared_modify fun hsome => hsome) (size_modify _ _)

/-- A node without a type gets that of its class. -/
theorem Filled.setType (h : Filled known isVariable graph)
    (hnone : (graph.node id).resolvedType = none) (hchildren : (graph.node id).children = [])
    {type : ClassType} (hknown : known type.name) :
    Filled known isVariable
      (graph.modify id fun node => { node with resolvedType := some type }) := by
  refine h.of_size_eq (.single (.annotate ⟨rfl, rfl, rfl, rfl, fun _ => rfl,
      fun _ _ => .inr trivial, fun _ _ => trivial, fun _ => .inl⟩)) ⟨?_, ?_⟩
    (keepsDeclared_modify fun hsome => hsome) (size_modify _ _)
  · exact h.untouched.spares ((Spares.refl graph).resolved type hnone trivial :
      graph.Spares (fun _ => False) (fun _ => True) _)
  · refine h.traced.modify rfl rfl (fun _ htype => ?_) (fun _ htype => .inr ?_) fun _ _ => ?_
    · rw [hnone] at htype
      cases htype
    · cases htype
      exact hknown
    · rw [hchildren]
      exact nofun

theorem Filled.freeze (h : Filled known isVariable graph) (hall : graph.AllResolved)
    (state : Sealed) : Filled known isVariable { graph with sealed? := some state } :=
  h.of_size_eq (.single (.freeze _))
    ⟨GraphM.untouched_freeze graph state hall h.untouched, h.traced.of_nodes_eq rfl⟩
    (fun _ hsome => hsome) rfl

end Graph

/-! ## Resolving and classifying -/

namespace GraphM

open BindingPlan.Graph Operation

variable {α β : Type} {known isVariable : String → Prop} {classes : ClassRegistry} {graph : Graph}
  {id size : Nat} {name : String}

/-- The operation leaves a graph that lacks types at names only, of the same size, and its errors
are about names. -/
def Guards (known isVariable : String → Prop) (size : Nat) (operation : GraphM α) : Prop :=
  ∀ graph, Filled known isVariable graph → graph.size = size →
    Ensures operation graph (fun _ next => Filled known isVariable next ∧ next.size = size)
      fun e next => Filled known isVariable next ∧ e.NamesClass isVariable next

theorem guards_pure (a : α) : Guards known isVariable size (pure a : GraphM α) :=
  fun _ h hsize => ensures_pure ⟨h, hsize⟩

theorem guards_bind {x : GraphM α} {f : α → GraphM β} (hx : Guards known isVariable size x)
    (hf : ∀ a, Guards known isVariable size (f a)) : Guards known isVariable size (x >>= f) :=
  fun graph h hsize => ensures_bind (hx graph h hsize) fun a next hnext => hf a next hnext.1 hnext.2

theorem guards_get_bind {f : Graph → GraphM β}
    (hf : ∀ graph, Filled known isVariable graph → graph.size = size →
      Guards known isVariable size (f graph)) : Guards known isVariable size (get >>= f) :=
  fun graph h hsize => ensures_get_bind (hf graph h hsize graph h hsize)

theorem guards_mapM {f : α → GraphM β} {list : List α}
    (hf : ∀ a ∈ list, Guards known isVariable size (f a)) :
    Guards known isVariable size (list.mapM f) := by
  induction list with
  | nil =>
    rw [List.mapM_nil]
    exact guards_pure _
  | cons a list ih =>
    rw [List.forall_mem_cons] at hf
    rw [List.mapM_cons]
    exact guards_bind hf.1 fun _ => guards_bind (ih hf.2) fun _ => guards_pure _

/-- Errors about cycles are not about the type of a node. -/
theorem guards_throw {e : GraphError} (h : ∀ key span cause, e ≠ .resolution key span cause) :
    Guards known isVariable size (throw e : GraphM α) :=
  fun _ hgraph _ => ensures_throw ⟨hgraph, fun key span cause he => absurd he (h key span cause)⟩

/-- The type of a variable or of a class is that of the class of the name. -/
theorem run_resolve_of_standsFor (hfresh : graph.Fresh id)
    (hnone : (graph.node id).resolvedType = none)
    (h : (graph.node id).StandsFor isVariable name) :
    (graph.node id).children = [] ∧ (resolve classes id).run.run graph = (do
      let type ← lookup id (classes.findClass name)
      modifyNode id fun node => { node with resolvedType := some type }
      return type : GraphM ClassType).run.run graph := by
  have haccepts := hfresh.accepts
  unfold resolve
  rw [run_bind, run_get]
  dsimp only
  rw [run_resolveWithin haccepts hnone]
  unfold settle
  cases h with
  | ofVariable kind declaredType =>
    rw [kind] at haccepts ⊢
    have hchildren := List.length_eq_zero_iff.mp haccepts
    refine ⟨hchildren, ?_⟩
    simp only [hchildren, List.mapM_nil, pure_bind, declaredType]
  | ofClass kind =>
    rw [kind] at haccepts ⊢
    have hchildren := List.length_eq_zero_iff.mp haccepts
    refine ⟨hchildren, ?_⟩
    simp only [hchildren, List.mapM_nil, pure_bind]

section

variable (hknown : ∀ name type, classes.findClass name = .ok type → known type.name)

include hknown

/-- Resolving fails only where the class of a variable or of a reference is not found. -/
theorem guards_resolve (hid : id < size) : Guards known isVariable size (resolve classes id) := by
  rintro graph h rfl
  cases hnone : (graph.node id).resolvedType with
  | some type =>
    unfold Ensures
    rw [run_resolve_of_resolved hnone]
    exact ⟨h, rfl⟩
  | none =>
    obtain ⟨name, hname⟩ := h.standsFor id hid hnone
    have hfresh := h.untouched.fresh id hnone
    obtain ⟨hchildren, hrun⟩ := run_resolve_of_standsFor hfresh hnone hname
    unfold Ensures
    rw [hrun]
    cases hclass : classes.findClass name with
    | ok type => exact ⟨h.setType hnone hchildren (hknown name type hclass), size_modify _ _⟩
    | error cause =>
      refine ⟨h, ?_⟩
      rintro _ _ _ ⟨⟩
      exact ⟨name, ClassRegistry.eq_unknownClass_of_findClass hclass, id, hid, rfl, rfl, hnone,
        hname⟩

theorem guards_classifyWithin (bound : Nat) (hid : id < size) :
    Guards known isVariable size (classifyWithin classes bound id) := by
  induction bound generalizing id with
  | zero => exact guards_get_bind fun graph _ _ => guards_throw nofun
  | succ bound ih =>
    refine guards_get_bind fun graph _ _ => ?_
    split
    · exact guards_pure _
    · refine guards_bind (guards_resolve hknown hid) fun _ => ?_
      refine guards_get_bind fun graph h hsize => ?_
      refine guards_bind (guards_mapM fun child hchild => ih ?_) fun children => ?_
      · exact hsize ▸ h.linked.children_lt hchild
      · exact guards_bind (fun graph h hsize => ⟨h.setDynamic id _, (size_modify _ _).trans hsize⟩)
          fun _ => guards_pure _

theorem guards_classify (hid : id < size) :
    Guards known isVariable size (classify classes id) :=
  guards_bind (guards_resolve hknown hid) fun _ =>
    guards_get_bind fun _ _ _ => guards_classifyWithin hknown _ hid

theorem guards_classifyFrom (count id : Nat) :
    Guards known isVariable size (classifyFrom classes count id) := by
  induction count generalizing id with
  | zero => exact guards_pure _
  | succ count ih =>
    refine guards_get_bind fun graph _ hsize => ?_
    split
    · next hid => exact guards_bind (guards_classify hknown (hsize ▸ hid)) fun _ => ih (id + 1)
    · exact guards_pure _

theorem guards_classifyAll : Guards known isVariable size (classifyAll classes) :=
  guards_get_bind fun _ _ _ => guards_bind (guards_classifyFrom hknown _ 0) fun _ =>
    guards_get_bind fun _ _ _ => guards_classifyFrom hknown _ _

/-- Sealing fails about a node only where the class of a variable or of a reference is not found. -/
theorem guards_sealGraph : Guards known isVariable size (sealGraph classes) := by
  refine guards_get_bind fun graph _ _ => ?_
  dsimp only
  split
  · exact fun graph h _ => ⟨h, GraphError.namesClass_alreadySealed⟩
  · intro graph h hsize
    have hall := guards_classifyAll hknown graph h hsize
    have hclassified : Ensures (classifyAll classes) graph
        (fun _ next => (Filled known isVariable next ∧ next.size = size) ∧ next.AllResolved)
        fun e next => Filled known isVariable next ∧ e.NamesClass isVariable next :=
      ensures_of_run
        (fun _ _ hrun => ⟨hall.of_ok hrun, fun _ hi => (classified_of_run_classifyAll hrun hi).1⟩)
        fun _ _ hrun => hall.of_error hrun
    refine ensures_bind hclassified ?_
    rintro _ next ⟨⟨hnext, hsize⟩, hresolved⟩
    refine ensures_get_bind ?_
    split
    · exact ensures_throw ⟨hnext, GraphError.namesClass_cycle⟩
    · exact ensures_set ⟨hnext.freeze hresolved _, hsize⟩

end

end GraphM
end BindingPlan
