import BindingPlan.Proofs.Binding.History
import BindingPlan.Proofs.Graph.Grown
import BindingPlan.Proofs.Graph.Judged
import BindingPlan.Proofs.Import.History

/-!
# Imports and the nodes of classes

A class is imported by a declaration, by a name in a source, or while a static member is looked up.
Each of these names the class in the table of imports and registers its node, in this order. When a
class is imported again under a second name, its node keeps the first one.

Main results:

* `Graph.InStep`: names of classes and nodes of classes agree.
* `Graph.Request.inStep_run`, `Call.inStep_run`: requests to a graph and calls of a binder keep
  this, unless the node of a class is registered without an import.
* `Binder.inStep_of_reached`: what holds of imports and classes after every history.
-/

namespace BindingPlan

variable {classes : ClassRegistry}

namespace Graph

variable {graph next : Graph} {shortName qualified : String} {type : ClassType} {id : Nat}

/-- Each node of a class is found by the class and bears a name of it, and each class that has a
name is found. -/
structure InStep (graph : Graph) : Prop where
  found : ∀ {id shortName qualified}, (graph.node id).kind = .classRef shortName qualified →
    graph.find? (Kind.classKey qualified) = some id
  named : ∀ {id shortName qualified}, (graph.node id).kind = .classRef shortName qualified →
    graph.imports.get? shortName = some qualified
  registered : ∀ entry ∈ graph.imports.entries,
    ∃ id, graph.find? (Kind.classKey entry.qualified) = some id

theorem inStep_empty : InStep .empty where
  found := fun h => nomatch h
  named := fun h => nomatch h
  registered := fun _ h => nomatch h

/-! ## Changes without a class -/

/-- A change that keeps nodes found, adds no node of a class and imports none. -/
theorem InStep.of_kinds (h : graph.InStep) (hkeeps : graph.Keeps next)
    (hkind : ∀ i, (next.node i).kind.isClassRef = true →
      (next.node i).kind = (graph.node i).kind)
    (himports : next.imports = graph.imports) : next.InStep where
  found := by
    intro i name qualified hi
    have hold := hkind i (by rw [hi]; rfl)
    exact hkeeps _ _ (h.found (hold.symm.trans hi))
  named := by
    intro i name qualified hi
    have hold := hkind i (by rw [hi]; rfl)
    rw [himports]
    exact h.named (hold.symm.trans hi)
  registered := by
    intro entry hentry
    rw [himports] at hentry
    exact (h.registered entry hentry).imp fun i => hkeeps _ i

theorem InStep.modify (h : graph.InStep) (id : Nat) {change : Node → Node}
    (hkind : ∀ node, (change node).kind = node.kind := by exact fun _ => rfl) :
    (graph.modify id change).InStep :=
  h.of_kinds (.modify (.refl _) change) (fun i _ => eq_of_modify Node.kind (hkind _) i) rfl

theorem InStep.replaceChild (h : graph.InStep) (parent position child : Nat) :
    (graph.replaceChild parent position child).InStep := by
  refine h.of_kinds (keeps_replaceChild parent position child) (fun _ _ => kind_replaceChild) ?_
  unfold Graph.replaceChild
  split
  · rfl
  · split
    · rfl
    · dsimp only
      split <;> rfl

theorem InStep.push (h : graph.InStep) {node : Node} (hkind : node.kind.isClassRef = false) :
    (graph.push node).InStep := by
  refine h.of_kinds (keeps_push node) (fun i hi => ?_) imports_push.1
  rcases Nat.lt_trichotomy i graph.size with hlt | rfl | hgt
  · exact kind_push hlt
  · rw [node_push_self, hkind] at hi
    cases hi
  · rw [node_push_of_lt hgt]

/-! ## Importing -/

section

variable {imports : ImportTable} (h : graph.InStep)
  (hpre : graph.imports.entries <+: imports.entries)
  (hentries : ∀ entry ∈ imports.entries,
    entry ∈ graph.imports.entries ∨ entry.qualified = qualified)

include h hpre hentries

/-- A class that has a node gets one more name. -/
theorem InStep.addName (hfound : graph.find? (Kind.classKey qualified) = some id) :
    InStep { graph with imports := imports } where
  found := h.found
  named := fun hi => ImportTable.get?_of_prefix hpre (h.named hi)
  registered := by
    intro entry hentry
    obtain hold | rfl := hentries entry hentry
    · exact h.registered entry hold
    · exact ⟨id, hfound⟩

/-- A class without a node gets one with its name. -/
theorem InStep.addClass {node : Node} (hkind : node.kind = .classRef shortName qualified)
    (hkey : node.key = Kind.classKey qualified) (hname : imports.get? shortName = some qualified)
    (hnew : graph.find? (Kind.classKey qualified) = none) :
    (({ graph with imports := imports } : Graph).push node).InStep := by
  generalize hnamed : ({ graph with imports := imports } : Graph) = named
  obtain ⟨hnode, hsize, himports⟩ : named.node = graph.node ∧ named.size = graph.size ∧
      named.imports = imports := by
    subst hnamed
    exact ⟨rfl, rfl, rfl⟩
  have hkeeps : graph.Keeps (named.push node) := by
    have himported : graph.Keeps named := by
      subst hnamed
      exact keeps_of_nodes_eq rfl
    exact himported.trans (keeps_push node)
  have hself : (named.push node).find? (Kind.classKey qualified) = some graph.size := by
    subst hnamed
    exact hkey ▸ find?_push_self (hkey ▸ hnew)
  -- the nodes of classes are those that there were, and the new one
  have hcases {i : Nat} {name other : String}
      (hi : ((named.push node).node i).kind = .classRef name other) :
      (graph.node i).kind = .classRef name other ∨
        i = graph.size ∧ name = shortName ∧ other = qualified := by
    rw [← hnode, ← hsize]
    rcases Nat.lt_trichotomy i named.size with hlt | rfl | hgt
    · exact .inl ((kind_push hlt).symm.trans hi)
    · rw [node_push_self, hkind] at hi
      cases hi
      exact .inr ⟨rfl, rfl, rfl⟩
    · rw [node_push_of_lt hgt] at hi
      exact .inl hi
  refine ⟨fun hi => ?_, fun hi => ?_, fun entry hentry => ?_⟩
  · obtain hold | ⟨rfl, rfl, rfl⟩ := hcases hi
    · exact hkeeps _ _ (h.found hold)
    · exact hself
  · rw [imports_push.1, himports]
    obtain hold | ⟨rfl, rfl, rfl⟩ := hcases hi
    · exact ImportTable.get?_of_prefix hpre (h.named hold)
    · exact hname
  · rw [imports_push.1, himports] at hentry
    obtain hold | rfl := hentries entry hentry
    · exact (h.registered entry hold).imp fun i => hkeeps _ i
    · exact ⟨graph.size, hself⟩

end

/-- A class that has a name has a node, which stays as it is when the class is asked for. -/
theorem InStep.run_classRefFor (h : graph.InStep)
    (hname : ∃ entry ∈ graph.imports.entries, entry.qualified = type.name) :
    ∃ id, (GraphM.classRefFor type).run.run graph = (.ok id, graph) := by
  obtain ⟨entry, hentry, hqualified⟩ := hname
  obtain ⟨id, hid⟩ := h.registered entry hentry
  rw [hqualified] at hid
  obtain ⟨_, _, hrun⟩ | ⟨_, hnew, _⟩ | ⟨_, hnew, _⟩ := GraphM.classRefFor_cases type graph
  · exact ⟨_, hrun⟩
  · cases hnew.symm.trans hid
  · cases hnew.symm.trans hid

/-! ## Operations -/

open Operation

theorem upholds_modify (id : Nat) {change : Node → Node}
    (hkind : ∀ node, (change node).kind = node.kind := by exact fun _ => rfl) :
    Operation.Keeps (Upholds InStep) (GraphM.modifyNode id change) :=
  keeps_modify fun _ h => h.modify id hkind

theorem upholds_register {kind : Kind} (hkind : kind.isClassRef = false) (children : List Nat) :
    Operation.Keeps (Upholds InStep) (GraphM.register kind children) := by
  intro graph h
  obtain ⟨_, -, hrun⟩ | ⟨-, hrun⟩ | ⟨-, -, hrun⟩ := GraphM.register_cases kind children graph
  · rw [hrun]
    exact h
  · rw [hrun]
    exact h
  · rw [hrun]
    exact h.push hkind

theorem upholds_symbol (text type : String) :
    Operation.Keeps (Upholds InStep) (GraphM.symbol text type) :=
  keeps_bind (upholds_register rfl []) fun id =>
    keeps_bind (upholds_modify id) fun _ => keeps_pure _

theorem upholds_declareVariable (name type : String) :
    Operation.Keeps (Upholds InStep) (GraphM.declareVariable name type) :=
  keeps_bind (upholds_register rfl []) fun id => keeps_bind keeps_ensureOpen fun _ =>
    keeps_bind (upholds_modify id) fun _ => keeps_pure _

theorem InStep.run_addImport (h : graph.InStep) (wanted qualified : String)
    (hopen : graph.isSealed = false) :
    ((GraphM.addImport wanted qualified).run.run graph).2.InStep := by
  unfold GraphM.addImport
  rw [run_bind_of_run (GraphM.run_ensureOpen hopen), GraphM.run_bind, GraphM.run_get]
  dsimp only
  rw [GraphM.run_bind, GraphM.run_set]
  dsimp only
  have hpre := ImportTable.prefix_add graph.imports wanted qualified
  have hname := ImportTable.get?_add_self graph.imports wanted qualified
  have hentries (entry : Import)
      (hentry : entry ∈ (graph.imports.add wanted qualified).2.entries) :=
    ImportTable.mem_or_of_mem_add hentry
  rw [ImportTable.add_fst]
  generalize (graph.imports.add wanted qualified).2 = imports at *
  generalize graph.imports.freeName wanted qualified = name at *
  unfold GraphM.classRef
  refine keeps_rest (fun id => keeps_bind (upholds_modify id) fun _ => keeps_pure _)
    _ _ ?_
  obtain ⟨id, hfound, hrun⟩ | ⟨hsealed, -⟩ | ⟨-, hnew, hrun⟩ :=
    GraphM.register_cases (.classRef name qualified) [] { graph with imports := imports }
  · rw [hrun]
    exact h.addName hpre hentries hfound
  · cases hsealed.symm.trans hopen
  · rw [hrun]
    exact h.addClass hpre hentries rfl rfl hname hnew

theorem upholds_addImport (wanted qualified : String) :
    Operation.Keeps (Upholds InStep) (GraphM.addImport wanted qualified) := by
  intro graph h
  cases hsealed : graph.isSealed with
  | false => exact h.run_addImport wanted qualified hsealed
  | true =>
    unfold GraphM.addImport
    rw [GraphM.run_ensureOpen_bind_of_isSealed hsealed]
    exact h

theorem upholds_classRefFor (type : ClassType) :
    Operation.Keeps (Upholds InStep) (GraphM.classRefFor type) := by
  intro graph h
  obtain ⟨_, _, hrun⟩ | ⟨_, _, hrun⟩ | ⟨hopen, hnew, -⟩ := GraphM.classRefFor_cases type graph
  · rw [hrun]
    exact h
  · rw [hrun]
    exact h
  · -- a class without a node has no name
    have hnone : ∀ entry ∈ graph.imports.entries, entry.qualified ≠ type.name := by
      rintro entry hentry heq
      obtain ⟨id, hid⟩ := h.registered entry hentry
      rw [heq, hnew] at hid
      cases hid
    rw [GraphM.run_classRefFor_of_new hopen hnew, ImportTable.nameFor_eq_add hnone]
    refine h.addClass (ImportTable.prefix_add _ _ _) (fun _ => ImportTable.mem_or_of_mem_add)
      rfl rfl ?_ hnew
    rw [ImportTable.add_fst]
    exact ImportTable.get?_add_self _ _ _

theorem upholds_splitWrapper (id : Nat) (name : String) (wrapper : Member) :
    Operation.Keeps (Upholds InStep) (GraphM.splitWrapper classes id name wrapper) := by
  refine keeps_bind keeps_get fun graph => keeps_bind (keeps_operand _ 0) fun receiver => ?_
  refine keeps_bind (upholds_register rfl _) fun inner => keeps_bind keeps_get fun graph => ?_
  refine keeps_bind (upholds_modify inner fun node => ?_) fun _ => ?_
  · split <;> rfl
  refine keeps_bind (keeps_modify fun _ h => h.replaceChild id 0 inner) fun _ => ?_
  refine keeps_bind (keeps_lookup id _) fun value => ?_
  exact keeps_bind (upholds_modify id) fun _ => keeps_pure _

theorem admits_inStep (classes : ClassRegistry) : Admits (Upholds InStep) classes where
  member _ id _ h := h.modify id
  moveToClass id member receiverType isStatic := by
    unfold GraphM.moveToClass
    split
    · exact keeps_bind (upholds_classRefFor receiverType) fun ref =>
        keeps_modify fun _ h => h.replaceChild id 0 ref
    · exact keeps_pure _
  splitWrapper := upholds_splitWrapper
  resolved id _ _ hnext h := (hnext h).modify id
  classified id _ _ hnext h := (hnext h).modify id

theorem InStep.freeze (h : graph.InStep) (sealed? : Option Sealed) :
    InStep { graph with sealed? := sealed? } :=
  ⟨h.found, h.named, h.registered⟩

theorem upholds_bind (id : Nat) : Operation.Keeps (Upholds InStep) (GraphM.bind id) :=
  keeps_bind keeps_ensureOpen fun _ => upholds_modify id

theorem allowsBinding_inStep (classes : ClassRegistry) :
    AllowsBinding (Upholds InStep) classes where
  register _ children hkind := upholds_register hkind children
  symbol := upholds_symbol
  classRefFor := upholds_classRefFor
  setSpan _ id _ h := h.modify id
  bind := upholds_bind
  classify := (admits_inStep classes).classify

theorem upholds_plan : Operation.Keeps (Upholds InStep) GraphM.plan :=
  keeps_plan fun _ sealed? _ h => h.freeze sealed?

/-! ## Requests -/

/-- No request registers the node of a class by hand. -/
def Request.Regular : Request → Prop
  | .register kind _ => kind.isClassRef = false
  | _ => True

/-- A request keeps names and nodes of classes in step, whether it succeeds or not. -/
theorem Request.inStep_run {request : Request} (hregular : request.Regular) (h : graph.InStep) :
    (request.run graph).InStep := by
  cases request with
  | register kind children => exact upholds_register hregular children graph h
  | declareVariable name type => exact upholds_declareVariable name type graph h
  | symbol text type => exact upholds_symbol text type graph h
  | addImport wanted qualified => exact upholds_addImport wanted qualified graph h
  | classRefFor type => exact upholds_classRefFor type graph h
  | bind id => exact upholds_bind id graph h
  | resolve classes id => exact (admits_inStep classes).resolve id graph h
  | classify classes id => exact (admits_inStep classes).classify id graph h
  | «seal» classes =>
    exact (admits_inStep classes).sealGraph (fun _ state h => h.freeze (some state)) graph h
  | plan => exact upholds_plan graph h

end Graph

/-! ## Histories -/

/-- So does a call of a binder. -/
theorem Call.inStep_run (call : Call) {binder : Binder} (h : binder.graph.InStep) :
    (call.run classes binder).graph.InStep := by
  cases call with
  | addVariable name type =>
    show (binder.addVariable name type).2.graph.InStep
    rw [Binder.graph_addVariable]
    exact Graph.upholds_declareVariable name type binder.graph h
  | addImport wanted qualified => exact Graph.upholds_addImport wanted qualified binder.graph h
  | parse source =>
    exact (BinderM.follows_bindSource (Graph.allowsBinding_inStep classes) source binder).graph h
  | sealGraph =>
    exact (Graph.admits_inStep classes).sealGraph (fun _ state h => h.freeze (some state)) _ h
  | plan => exact Graph.upholds_plan _ h

/-- A binder that is reached from the empty one by calls, by requests to its graph, and by reads,
which change how far the reads have come. Only nodes of classes are not registered by hand. -/
inductive Binder.Reached (classes : ClassRegistry) : Binder → Prop where
  | empty : Reached classes .empty
  | call {binder : Binder} (reached : Reached classes binder) (call : Call) :
      Reached classes (call.run classes binder)
  | request {binder : Binder} (reached : Reached classes binder) (request : Graph.Request)
      (regular : request.Regular) :
      Reached classes { binder with graph := request.run binder.graph }
  | proceed {binder : Binder} (reached : Reached classes binder) (progress : Progress) :
      Reached classes { binder with graph := { binder.graph with
        sealed? := binder.graph.sealed?.map fun state => { state with progress := progress } } }

theorem Binder.Reached.inStep {binder : Binder} (h : Reached classes binder) :
    binder.graph.InStep := by
  induction h with
  | empty => exact Graph.inStep_empty
  | call _ call ih => exact call.inStep_run ih
  | request _ request regular ih => exact request.inStep_run regular ih
  | proceed _ progress ih => exact ih.freeze _

/-- After every history: the node of a class bears a name that stands for the class, a class has at
most one node, each class in the table of imports is found, and asking for the node of such a class
gives one and changes nothing. -/
theorem Binder.inStep_of_reached {binder : Binder} (h : Reached classes binder) :
    (∀ id shortName qualified, (binder.graph.node id).kind = .classRef shortName qualified →
      binder.graph.imports.get? shortName = some qualified) ∧
    (∀ i j shortName other qualified,
      (binder.graph.node i).kind = .classRef shortName qualified →
      (binder.graph.node j).kind = .classRef other qualified → i = j) ∧
    (∀ entry ∈ binder.graph.imports.entries,
      ∃ id, binder.graph.find? (Kind.classKey entry.qualified) = some id) ∧
    ∀ type : ClassType, (∃ entry ∈ binder.graph.imports.entries, entry.qualified = type.name) →
      ∃ id, (GraphM.classRefFor type).run.run binder.graph = (.ok id, binder.graph) := by
  have h := h.inStep
  refine ⟨fun _ _ _ => h.named, fun i j _ _ _ hi hj => ?_, h.registered,
    fun _ => h.run_classRefFor⟩
  exact Option.some.inj ((h.found hi).symm.trans (h.found hj))

/-- The second class is imported on demand while its simple name is taken, and then once more by a
name of its own. -/
theorem Binder.inStep_of_reached_renamed :
    let imported := Call.run ⟨[]⟩ .empty (.addImport "View" "a.User")
    let demanded : Binder := { imported with
      graph := Graph.Request.run imported.graph (.classRefFor (.plain "b.View")) }
    let binder := Call.run ⟨[]⟩ demanded (.addImport "V" "b.View")
    (binder.graph.node 1).kind = .classRef "View1" "b.View" ∧
      binder.graph.imports.get? "View1" = some "b.View" ∧
      ⟨"V", "b.View"⟩ ∈ binder.graph.imports.entries ∧
      ∃ id, (GraphM.classRefFor (.plain "b.View")).run.run binder.graph =
        (.ok id, binder.graph) := by
  intro imported demanded binder
  have h : Reached ⟨[]⟩ binder :=
    ((Reached.empty.call (.addImport "View" "a.User")).request
      (.classRefFor (.plain "b.View")) trivial).call (.addImport "V" "b.View")
  obtain ⟨hnamed, -, -, hclass⟩ := inStep_of_reached h
  have hkind : (binder.graph.node 1).kind = .classRef "View1" "b.View" := by decide +kernel
  have hentry : ⟨"V", "b.View"⟩ ∈ binder.graph.imports.entries := by decide +kernel
  exact ⟨hkind, hnamed 1 _ _ hkind, hentry, hclass (.plain "b.View") ⟨_, hentry, rfl⟩⟩

end BindingPlan
