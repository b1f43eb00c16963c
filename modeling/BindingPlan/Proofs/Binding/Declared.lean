import BindingPlan.Proofs.Binding.Failures
import BindingPlan.Proofs.Graph.Judged

/-!
# The declarations of a layout

In front of all bindings the graph of a layout holds its variables and the references of its
imported classes, and nothing is resolved.

Main results:

* `Binder.Declared`: what holds of a binder behind declarations.
* `Layout.declared_declare`: it holds behind the declarations of a layout.
-/

namespace BindingPlan

open BindingPlan.Graph Operation

variable {names : List String} {graph next : Graph} {node : Node} {id : Nat}
  {name type wanted qualified : String} {binder : Binder}

/-- A node in front of all bindings: a variable, or the reference of a class of the names. -/
structure Node.Declared (names : List String) (node : Node) : Prop where
  children : node.children = []
  resolvedType : node.resolvedType = none
  kind : (∃ name, node.kind = .identifier name ∧ node.key = name ∧ IsName name.toList) ∨
    ∃ shortName qualified, node.kind = .classRef shortName qualified ∧
      node.key = Kind.classKey qualified ∧ qualified ∈ names

/-- A graph in front of all bindings. -/
structure Graph.Declared (names : List String) (graph : Graph) : Prop where
  linked : graph.Linked
  isOpen : graph.isSealed = false
  node : ∀ i < graph.size, (graph.node i).Declared names

/-- The graph has the variable. -/
def Graph.Names (graph : Graph) (name : String) : Prop :=
  ∃ i < graph.size, (graph.node i).kind = .identifier name

/-- A binder in front of all bindings: its variables are those that are known to it. -/
structure Binder.Declared (names : List String) (binder : Binder) : Prop where
  graph : binder.graph.Declared names
  finds : binder.FindsVariables
  variableNode? : ∀ name, binder.graph.Names name → (binder.variableNode? name).isSome

/-! ## Graphs -/

theorem Node.Declared.of_core {other : Node} (h : node.Declared names)
    (hkind : other.kind = node.kind) (hkey : other.key = node.key)
    (hchildren : other.children = node.children)
    (hresolved : other.resolvedType = node.resolvedType) : other.Declared names where
  children := hchildren.trans h.children
  resolvedType := hresolved.trans h.resolvedType
  kind := by
    rw [hkind, hkey]
    exact h.kind

namespace Graph.Declared

/-- The node gets a type of its own. -/
theorem setType (h : graph.Declared names) (declared : Option String) :
    (graph.modify id fun node => { node with declaredType := declared }).Declared names where
  linked := @Linked.step (.any fun _ => True) _ _ h.linked (.annotate (.of_eq rfl))
  isOpen := h.isOpen
  node := by
    intro i hi
    rw [size_modify] at hi
    exact (h.node i hi).of_core (eq_of_modify Node.kind rfl i) (eq_of_modify Node.key rfl i)
      (eq_of_modify Node.children rfl i) (eq_of_modify Node.resolvedType rfl i)

theorem push (h : graph.Declared names) (hnode : node.Declared names) (hparents : node.parents = [])
    (hnew : graph.find? node.key = none) : (graph.push node).Declared names where
  linked := by
    refine h.linked.push hnew (fun child hchild => ?_) hparents
    rw [hnode.children] at hchild
    cases hchild
  isOpen := (congrArg Option.isSome imports_push.2).trans h.isOpen
  node := by
    intro i hi
    rw [size_push] at hi
    rcases Nat.lt_or_eq_of_le (Nat.le_of_lt_succ hi) with hlt | rfl
    · exact (h.node i hlt).of_core (kind_push hlt) (eq_of_push Node.key (fun _ _ => rfl) hlt)
        (children_push hlt) (resolvedType_push hlt)
    · rw [node_push_self]
      exact hnode

theorem importClass (h : graph.Declared names) (imports : ImportTable) :
    ({ graph with imports := imports } : Graph).Declared names where
  linked := @Linked.step (.any fun _ => True) _ _ h.linked (.importClass imports)
  isOpen := h.isOpen
  node := h.node

/-- Registering a variable or a class; only a variable is a new name. -/
theorem ensures_register (h : graph.Declared names) {kind : Kind}
    (hnode : (Node.new kind (kind.key []) []).Declared names) :
    Ensures (GraphM.register kind []) graph
      (fun _ next => next.Declared names ∧
        ∀ name, next.Names name → graph.Names name ∨ kind = .identifier name)
      fun _ _ => True := by
  refine ensures_of_run (fun id next hrun => ?_) fun _ _ _ => trivial
  obtain ⟨found, -, hfound⟩ | ⟨-, hsealed⟩ | ⟨-, hnew, hpush⟩ := GraphM.register_cases kind [] graph
  · cases hfound.symm.trans hrun
    exact ⟨h, fun _ => .inl⟩
  · cases hsealed.symm.trans hrun
  · cases hpush.symm.trans hrun
    refine ⟨h.push hnode rfl hnew, ?_⟩
    rintro name ⟨i, hi, hkind⟩
    rw [size_push] at hi
    rcases Nat.lt_or_eq_of_le (Nat.le_of_lt_succ hi) with hlt | rfl
    · exact .inl ⟨i, hlt, (kind_push hlt).symm.trans hkind⟩
    · rw [node_push_self] at hkind
      exact .inr hkind

theorem names_setType {declared : Option String}
    (h : (graph.modify id fun node => { node with declaredType := declared }).Names name) :
    graph.Names name := by
  obtain ⟨i, hi, hkind⟩ := h
  rw [size_modify] at hi
  rw [eq_of_modify Node.kind rfl] at hkind
  exact ⟨i, hi, hkind⟩

/-- An import adds no variable. -/
theorem ensures_addImport (h : graph.Declared names) (hname : qualified ∈ names) :
    Ensures (GraphM.addImport wanted qualified) graph
      (fun _ next => next.Declared names ∧ ∀ name, next.Names name → graph.Names name)
      fun _ _ => True := by
  have hclass : (Node.new (.classRef (graph.imports.add wanted qualified).1 qualified)
      (Kind.classKey qualified) []).Declared names :=
    ⟨rfl, rfl, .inr ⟨_, qualified, rfl, rfl, hname⟩⟩
  have himport := h.importClass (graph.imports.add wanted qualified).2
  have hregister := himport.ensures_register hclass
  have hclassRef : Ensures (GraphM.classRef (graph.imports.add wanted qualified).1 qualified)
      { graph with imports := (graph.imports.add wanted qualified).2 }
      (fun _ next => next.Declared names ∧ ∀ name, next.Names name → graph.Names name)
      fun _ _ => True := by
    refine ensures_bind hregister ?_
    rintro id next ⟨hnext, hnames⟩
    refine ⟨hnext.setType _, fun name hlast => ?_⟩
    exact (hnames name (names_setType hlast)).resolve_right nofun
  unfold GraphM.addImport Ensures
  rw [run_bind_of_run (GraphM.run_ensureOpen h.isOpen)]
  exact hclassRef

/-- A variable is the only new name. -/
theorem ensures_declareVariable (h : graph.Declared names) (hname : IsName name.toList) :
    Ensures (GraphM.declareVariable name type) graph
      (fun _ next => next.Declared names ∧
        ∀ other, next.Names other → graph.Names other ∨ other = name)
      fun _ _ => True := by
  have hnode : (Node.new (.identifier name) name []).Declared names :=
    ⟨rfl, rfl, .inl ⟨name, rfl, rfl, hname⟩⟩
  refine ensures_bind (h.ensures_register hnode) ?_
  rintro id next ⟨hnext, hnames⟩
  unfold Ensures
  rw [run_bind_of_run (GraphM.run_ensureOpen hnext.isOpen)]
  refine ⟨hnext.setType _, fun other hother => ?_⟩
  exact (hnames other (names_setType hother)).imp_right fun heq => (Kind.identifier.inj heq).symm

end Graph.Declared

/-! ## Binders -/

namespace Binder

theorem declared_empty : Declared names .empty where
  graph := ⟨linked_empty, rfl, fun i hi => absurd hi (Nat.not_lt_zero i)⟩
  finds := fun _ _ h => nomatch h
  variableNode? := fun _ ⟨_, hi, _⟩ => absurd hi (Nat.not_lt_zero _)

theorem Declared.addImport {next : Binder} {id : Nat} (h : binder.Declared names)
    (hname : qualified ∈ names) (hrun : binder.addImport wanted qualified = (.ok id, next)) :
    next.Declared names := by
  have hkeeps := keeps_run (Graph.allows_keeps.addImport wanted qualified) binder
  have hensures : Ensures (GraphM.addImport wanted qualified) binder.graph _ _ :=
    h.graph.ensures_addImport hname
  unfold Binder.addImport at hrun
  rw [hrun] at hkeeps
  unfold run at hrun
  generalize hgraph : (GraphM.addImport wanted qualified).run.run binder.graph = outcome at hrun
  obtain ⟨_ | found, graph⟩ := outcome
  · cases hrun
  · cases hrun
    obtain ⟨hdeclared, hnames⟩ := hensures.of_ok hgraph
    exact ⟨hdeclared, h.finds.mono hkeeps, fun name hname =>
      h.variableNode? name (hnames name hname)⟩

theorem Declared.addVariable {next : Binder} {id : Nat} (h : binder.Declared names)
    (hname : IsName name.toList) (hrun : binder.addVariable name type = (.ok id, next)) :
    next.Declared names := by
  have hfinds := findsVariables_addVariable h.finds name type
  have hensures : Ensures (GraphM.declareVariable name type) binder.graph _ _ :=
    h.graph.ensures_declareVariable hname
  rw [hrun] at hfinds
  unfold Binder.addVariable run at hrun
  generalize hgraph : (GraphM.declareVariable name type).run.run binder.graph = outcome at hrun
  obtain ⟨_ | found, graph⟩ := outcome
  · cases hrun
  · cases hrun
    obtain ⟨hdeclared, hnames⟩ := hensures.of_ok hgraph
    refine ⟨hdeclared, hfinds, fun other hother => ?_⟩
    rw [variableNode?_cons]
    split
    · rfl
    · next hne => exact h.variableNode? other ((hnames other hother).resolve_right hne)

end Binder

/-! ## Layouts -/

namespace Layout

theorem declared_declareImports {imports : List ImportDecl} (h : binder.Declared names)
    (himports : ∀ i ∈ imports, i.type ∈ names) {next : Binder}
    (hrun : declareImports imports binder = .ok next) : next.Declared names := by
  induction imports generalizing binder with
  | nil =>
    cases hrun
    exact h
  | cons i imports ih =>
    unfold declareImports at hrun
    split at hrun
    · next hadded =>
      exact ih (h.addImport (himports i List.mem_cons_self) hadded)
        (fun j hj => himports j (List.mem_cons_of_mem _ hj)) hrun
    · cases hrun

theorem declared_declareVariables {decls : List VariableDecl} (h : binder.Declared names)
    (hvariables : ∀ v ∈ decls, IsName v.name.toList) {next : Binder}
    (hrun : declareVariables decls binder = .ok next) : next.Declared names := by
  induction decls generalizing binder with
  | nil =>
    cases hrun
    exact h
  | cons v decls ih =>
    unfold declareVariables at hrun
    split at hrun
    · next hadded =>
      exact ih (h.addVariable (hvariables v List.mem_cons_self) hadded)
        (fun w hw => hvariables w (List.mem_cons_of_mem _ hw)) hrun
    · cases hrun

/-- What holds of the binder behind the declarations of a layout. -/
theorem declared_declare {layout : Layout} (himports : ∀ i ∈ layout.imports, i.type ∈ names)
    (hvariables : ∀ v ∈ layout.variableDecls, IsName v.name.toList)
    (h : layout.declare = .ok binder) : binder.Declared names := by
  unfold declare at h
  cases himported : declareImports layout.imports .empty with
  | error e =>
    rw [himported] at h
    cases h
  | ok imported =>
    rw [himported] at h
    have hreached := declared_declareImports Binder.declared_empty himports himported
    exact declared_declareVariables hreached hvariables h

end Layout
end BindingPlan
