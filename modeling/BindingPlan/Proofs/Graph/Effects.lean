import BindingPlan.Proofs.Graph.Step

/-!
# The steps that operations take

Every operation on a graph takes steps only, and when it fails with an error about a node that has a
span, then it is the span of a node.

Main results:

* `GraphM.Takes`: the operation takes steps, and what holds if it gives a result.
* `GraphM.takes_register`, `GraphM.takes_classRefFor`: the node is found by its key afterwards.
* `GraphM.takes_resolve`, `GraphM.takes_classify`, `GraphM.takes_sealGraph`: resolving gives known
  types, and no operation does anything but take steps.
-/

namespace BindingPlan

/-- The span of an error is that of a node, and no walk ran into a cycle unless it might. -/
structure GraphError.Reports (rules : Graph.Rules) (graph : Graph) (e : GraphError) : Prop where
  span : ∀ key span cause, e = .resolution key (some span) cause →
    ∃ i, (graph.node i).span = some span
  cycle : ∀ key, e = .dependencyCycle key → rules.cycles

theorem Graph.reports_resolutionError (rules : Graph.Rules) (graph : Graph) (id : Nat)
    (cause : ResolveError) : (graph.resolutionError id cause).Reports rules graph where
  span := by
    intro key span cause' h
    unfold resolutionError at h
    injection h with _ hspan _
    exact ⟨id, hspan⟩
  cycle := nofun

/-- The error tells of no look-up and no cycle. -/
def GraphError.isPlain : GraphError → Bool
  | .resolution .. | .dependencyCycle _ => false
  | _ => true

theorem GraphError.reports_of_isPlain {rules : Graph.Rules} {graph : Graph} {e : GraphError}
    (h : e.isPlain = true) : e.Reports rules graph where
  span := by
    rintro _ _ _ rfl
    cases h
  cycle := by
    rintro _ rfl
    cases h

theorem GraphError.reports_cycle {rules : Graph.Rules} {graph : Graph} {key : String}
    (h : rules.cycles) : (dependencyCycle key).Reports rules graph where
  span := nofun
  cycle := fun _ _ => h

namespace GraphM

open BindingPlan.Graph BindingPlan.Graph.Rules Operation

variable {α β : Type} {rules : Rules} {graph next : Graph} {classes : ClassRegistry}
  {x : GraphM α} {f : α → GraphM β} {R : α → Graph → Prop} {gives : β → Graph → Prop}

/-- The operation takes steps, and gives only results as said. -/
def Takes (rules : Rules) (operation : GraphM α) (graph : Graph) (R : α → Graph → Prop) :
    Prop :=
  Ensures operation graph (fun a next => rules.Steps graph next ∧ R a next)
    fun e next => rules.Steps graph next ∧ e.Reports rules next

/-! ## Sequences -/

theorem takes_pure {a : α} (h : R a graph) : Takes rules (pure a) graph R :=
  ensures_pure ⟨.refl, h⟩

theorem takes_throw {e : GraphError} (h : e.Reports rules graph) :
    Takes rules (throw e) graph R :=
  ensures_throw ⟨.refl, h⟩

theorem takes_get {R : Graph → Graph → Prop} (h : R graph graph) :
    Takes rules get graph R :=
  ensures_get ⟨.refl, h⟩

theorem takes_modify {R : PUnit → Graph → Prop} {change : Graph → Graph}
    (hstep : rules.Step graph (change graph)) (h : R ⟨⟩ (change graph)) :
    Takes rules (modify change) graph R :=
  ensures_modify ⟨.single hstep, h⟩

theorem takes_set {R : PUnit → Graph → Prop} (hstep : rules.Step graph next)
    (h : R ⟨⟩ next) : Takes rules (set next) graph R :=
  ensures_set ⟨.single hstep, h⟩

theorem takes_modifyNode {id : Nat} {change : Node → Node} {R : PUnit → Graph → Prop}
    (hstep : rules.Annotates graph (graph.node id) (change (graph.node id)))
    (h : R ⟨⟩ (graph.modify id change)) :
    Takes rules (modifyNode id change) graph R :=
  takes_modify (.annotate hstep) h

theorem takes_bind (hx : Takes rules x graph R)
    (hf : ∀ a next, rules.Steps graph next → R a next → Takes rules (f a) next gives) :
    Takes rules (x >>= f) graph gives := by
  refine ensures_bind hx ?_
  rintro a next ⟨hsteps, ha⟩
  refine (hf a next hsteps ha).imp ?_ ?_
  · rintro b last ⟨hmore, hb⟩
    exact ⟨hsteps.trans hmore, hb⟩
  · rintro e last ⟨hmore, he⟩
    exact ⟨hsteps.trans hmore, he⟩

theorem Takes.imp {wanted : α → Graph → Prop} (h : Takes rules x graph R)
    (himp : ∀ a next, rules.Steps graph next → R a next → wanted a next) :
    Takes rules x graph wanted :=
  Ensures.imp h (fun a next ha => ⟨ha.1, himp a next ha.1 ha.2⟩) fun _ _ he => he

theorem Takes.steps (h : Takes rules x graph R) : rules.Steps graph (x.run.run graph).2 := by
  generalize hrun : x.run.run graph = outcome
  obtain ⟨_ | a, next⟩ := outcome
  · exact (h.of_error hrun).1
  · exact (h.of_ok hrun).1

/-- Reading the graph changes nothing. -/
theorem takes_get_bind {f : Graph → GraphM β} (h : Takes rules (f graph) graph gives) :
    Takes rules (get >>= f) graph gives :=
  takes_bind (takes_get (R := fun a next => a = graph ∧ next = graph) ⟨rfl, rfl⟩)
    fun _ _ _ ⟨ha, hnext⟩ => ha ▸ hnext ▸ h

theorem takes_mapM {f : α → GraphM β} {list : List α}
    (h : ∀ a ∈ list, ∀ next, rules.Steps graph next → Takes rules (f a) next fun _ _ => True) :
    Takes rules (list.mapM f) graph fun _ _ => True := by
  induction list generalizing graph with
  | nil =>
    rw [List.mapM_nil]
    exact takes_pure trivial
  | cons a list ih =>
    rw [List.mapM_cons]
    refine takes_bind (h a List.mem_cons_self graph .refl) fun _ next hsteps _ => ?_
    refine takes_bind (ih fun a ha last hmore => ?_) fun _ _ _ _ => takes_pure trivial
    exact h a (List.mem_cons_of_mem _ ha) last (hsteps.trans hmore)

/-! ## Registering -/

theorem takes_ensureOpen_bind {f : Unit → GraphM β}
    (h : graph.isSealed = false → Takes rules (f ⟨⟩) graph gives) :
    Takes rules (ensureOpen >>= f) graph gives := by
  refine takes_bind (R := fun _ next => next = graph ∧ graph.isSealed = false)
    (takes_get_bind ?_) fun _ _ _ ⟨hnext, hopen⟩ => hnext ▸ h hopen
  split
  · exact takes_throw (GraphError.reports_of_isPlain rfl)
  · next hopen => exact takes_pure ⟨rfl, Bool.eq_false_iff.mpr hopen⟩

/-- Registering takes the step of a new node, if the node is new. -/
theorem takes_register_of {kind : Kind} {children : List Nat}
    (hstep : graph.isSealed = false →
      graph.find? (kind.key (children.map graph.keyOf)) = none → rules.Step graph
        (graph.push (.new kind (kind.key (children.map graph.keyOf)) children))) :
    Takes rules (register kind children) graph fun id next =>
      next.find? (kind.key (children.map graph.keyOf)) = some id ∧ (next = graph ∨
        next = graph.push (.new kind (kind.key (children.map graph.keyOf)) children)) := by
  refine ensures_of_run (fun id next hrun => ?_) fun e next hrun => ?_
  · have hfinds := finds_register kind children graph id next hrun
    obtain ⟨found, -, h⟩ | ⟨-, h⟩ | ⟨hopen, hnew, h⟩ := register_cases kind children graph
    · cases h.symm.trans hrun
      exact ⟨.refl, hfinds, .inl rfl⟩
    · cases h.symm.trans hrun
    · cases h.symm.trans hrun
      exact ⟨.single (hstep hopen hnew), hfinds, .inr rfl⟩
  · obtain ⟨found, -, h⟩ | ⟨-, h⟩ | ⟨-, -, h⟩ := register_cases kind children graph
    · cases h.symm.trans hrun
    · cases h.symm.trans hrun
      exact ⟨.refl, nofun, nofun⟩
    · cases h.symm.trans hrun

theorem takes_register {kind : Kind} {children : List Nat}
    (h : rules.expression graph kind children) :
    Takes rules (register kind children) graph fun id next =>
      next.find? (kind.key (children.map graph.keyOf)) = some id :=
  (takes_register_of fun hopen hnew => .register hopen hnew h).imp fun _ _ _ hid => hid.1

/-- What is found stays found when it is annotated. -/
theorem takes_annotated {x : GraphM Nat} {key : String} {change : Node → Node}
    (hx : Takes rules x graph fun id next => next.find? key = some id)
    (hchange : ∀ graph node, rules.Annotates graph node (change node)) :
    Takes rules (do
      let id ← x
      modifyNode id change
      return id) graph fun id next => next.find? key = some id := by
  refine takes_bind hx fun id next _ hid => ?_
  have hannotates := hchange next (next.node id)
  refine takes_bind (takes_modifyNode (R := fun _ last => last.find? key = some id)
    hannotates ?_) fun _ _ _ hid => takes_pure hid
  exact Rules.Steps.keeps (.single (.annotate hannotates)) key id hid

theorem takes_symbol {text type : String} (h : rules.expression graph (.symbol text type) []) :
    Takes rules (symbol text type) graph fun id next => next.find? text = some id :=
  takes_annotated (takes_register h) fun _ _ => .of_eq rfl

theorem takes_declareVariable {name type : String}
    (h : rules.expression graph (.identifier name) []) :
    Takes rules (declareVariable name type) graph fun id next => next.find? name = some id := by
  refine takes_bind (takes_register h) fun id next _ hid => takes_ensureOpen_bind fun _ => ?_
  exact takes_annotated (x := pure id) (takes_pure hid) fun _ _ => .of_eq rfl

theorem takes_classRef (shortName qualified : String) :
    Takes rules (classRef shortName qualified) graph fun id next =>
      next.find? (Kind.classKey qualified) = some id :=
  takes_annotated ((takes_register_of .registerClass).imp fun _ _ _ hid => hid.1) fun _ _ =>
    .of_eq rfl

theorem takes_addImport (wanted qualified : String) :
    Takes rules (addImport wanted qualified) graph fun id next =>
      next.find? (Kind.classKey qualified) = some id := by
  refine takes_ensureOpen_bind fun _ => takes_get_bind ?_
  dsimp only
  exact takes_bind (takes_set (R := fun _ _ => True) (.importClass _) trivial)
    fun _ _ _ _ => takes_classRef _ _

/-- The reference to a class of a known name. -/
theorem takes_classRefFor {type : ClassType} (h : rules.typeName type.name)
    (hready : ∀ next id, rules.Steps graph next →
      next.find? (Kind.classKey type.name) = some id →
      rules.ready next (next.node id).children) :
    Takes rules (classRefFor type) graph fun id next =>
      next.find? (Kind.classKey type.name) = some id := by
  refine takes_get_bind ?_
  dsimp only
  split
  · next id hid => exact takes_pure hid
  · split
    · exact takes_throw (GraphError.reports_of_isPlain rfl)
    · refine takes_bind (takes_set (R := fun _ _ => True) (.importClass _) trivial) ?_
      rintro _ next himport -
      refine takes_bind (takes_classRef _ _) fun id last href hid => ?_
      have hannotates : rules.Annotates last (last.node id)
          { last.node id with resolvedType := (last.node id).resolvedType.or (some type) } := by
        refine ⟨rfl, rfl, rfl, rfl, fun hnode => ?_, fun other hother => ?_, fun _ _ => ?_,
          fun _ => .inl⟩
        · rw [Option.isSome_or, hnode]
          rfl
        · refine (Option.or_eq_some_iff.mp hother).imp_right fun hother => ?_
          cases hother.2
          exact h
        · exact hready last id (himport.trans href) hid
      refine takes_bind (takes_modifyNode (R := fun _ last =>
        last.find? (Kind.classKey type.name) = some id) hannotates ?_)
        fun _ _ _ hid => takes_pure hid
      exact Rules.Steps.keeps (.single (.annotate hannotates)) _ id hid

theorem takes_bindRoot (id : Nat) : Takes rules (GraphM.bind id) graph fun _ _ => True :=
  takes_ensureOpen_bind fun _ => takes_modifyNode (.of_eq rfl) trivial

/-! ## Resolving -/

theorem takes_lookup (id : Nat) (result : Except ResolveError α) :
    Takes rules (lookup id result) graph fun value next => next = graph ∧ result = .ok value := by
  cases result with
  | ok value => exact takes_pure ⟨rfl, rfl⟩
  | error cause => exact takes_get_bind (takes_throw (graph.reports_resolutionError rules id cause))

theorem takes_lookup_bind {id : Nat} {result : Except ResolveError α}
    (h : ∀ value, result = .ok value → Takes rules (f value) graph gives) :
    Takes rules (lookup id result >>= f) graph gives :=
  takes_bind (takes_lookup id result) fun value _ _ ⟨hnext, hvalue⟩ => hnext ▸ h value hvalue

theorem takes_operand_bind {f : Nat → GraphM β} {node : Node} {position : Nat}
    (h : ∀ child, node.children[position]? = some child → Takes rules (f child) graph gives) :
    Takes rules (operand node position >>= f) graph gives := by
  unfold operand
  split
  · next child hchild =>
    rw [pure_bind]
    exact h child hchild
  · exact takes_bind (R := fun _ _ => False) (takes_throw (GraphError.reports_of_isPlain rfl))
      fun _ _ _ h => h.elim

theorem takes_isClassRef_bind {f : Bool → GraphM β} {id : Nat}
    (h : Takes rules (f (graph.node id).kind.isClassRef) graph gives) :
    Takes rules (isClassRef id >>= f) graph gives :=
  takes_bind (R := fun answer next => next = graph ∧
    answer = (graph.node id).kind.isClassRef) (takes_get_bind (takes_pure ⟨rfl, rfl⟩))
    fun _ _ _ ⟨hnext, hanswer⟩ => hnext ▸ hanswer ▸ h

/-- A result that is given once its node is annotated. -/
theorem takes_annotate_return {a : α} {id : Nat} {change : Node → Node}
    (hchange : rules.Annotates graph (graph.node id) (change (graph.node id)))
    (h : ∀ next, rules.Steps graph next → R a next) :
    Takes rules (do modifyNode id change; return a) graph R :=
  takes_bind (takes_modifyNode (R := fun _ _ => True) hchange trivial) fun _ next hsteps _ =>
    takes_pure (h next hsteps)

/-- The node is not marked as unwrapping, unless such nodes are registered. -/
def Marked (rules : Rules) (graph : Graph) (id : Nat) : Prop :=
  ∀ name, (graph.node id).kind = .field name true → rules.unwraps

theorem Marked.steps {id : Nat} (h : Marked rules graph id) (hid : id < graph.size)
    (hsteps : rules.Steps graph next) : Marked rules next id :=
  fun name hkind => h name ((Steps.kind hsteps hid).symm.trans hkind)

theorem marked_of_unresolved (hfits : rules.Fits graph) {id : Nat}
    (hid : (graph.node id).resolvedType = none) : Marked rules graph id := by
  intro name hkind
  refine (hfits.wrapper id name hkind).resolve_left ?_
  rw [hid]
  exact Bool.false_ne_true

theorem takes_moveToClass {id : Nat} (hid : id < graph.size) (hmoves : rules.moves)
    (hmarked : Marked rules graph id) (member : Member) {type : ClassType} (isStatic : Bool)
    (h : rules.typeName type.name)
    (hready : ∀ next id, rules.Steps graph next →
      next.find? (Kind.classKey type.name) = some id → rules.ready next (next.node id).children) :
    Takes rules (moveToClass id member type isStatic) graph fun _ _ => True := by
  unfold moveToClass
  split
  · exact takes_bind (takes_classRefFor h hready) fun ref next hsteps href =>
      takes_modify (.moveToClass hmoves (hmarked.steps hid hsteps) h href) trivial
  · exact takes_pure trivial

theorem annotates_readsWrapper {node : Node} {id : Nat} {wrapper : Member}
    (h : rules.typeName wrapper.type.name) (hready : rules.ready graph node.children) :
    rules.Annotates graph node (node.readsWrapper wrapper (graph.node id).span) := by
  unfold Node.readsWrapper
  split
  · refine ⟨rfl, rfl, rfl, rfl, fun _ => rfl, fun type htype => ?_, fun _ _ => hready,
      fun span hspan => ?_⟩
    · cases htype
      exact .inr h
    · rcases Option.or_eq_some_iff.mp hspan with hspan | ⟨-, hspan⟩
      · exact .inl hspan
      · exact .inr (.inr ⟨id, hspan⟩)
  · exact .of_eq rfl

/-- Registers the node that reads the wrapper, unless there is one; its type is known then. -/
def readWrapper (id : Nat) (name : String) (wrapper : Member) (receiver : Nat) : GraphM Nat := do
  let inner ← register (.field name true) [receiver]
  let span := ((← get).node id).span
  modifyNode inner (Node.readsWrapper wrapper span)
  return inner

theorem splitWrapper_eq (classes : ClassRegistry) (id : Nat) (name : String) (wrapper : Member) :
    splitWrapper classes id name wrapper = (do
      let receiver ← operand ((← get).node id) 0
      let inner ← readWrapper id name wrapper receiver
      modify fun graph => graph.replaceChild id 0 inner
      let value ← lookup id (classes.findMember wrapper.type "get" false)
      modifyNode id fun node => { node with member := some value }
      return value.type) := by
  unfold splitWrapper readWrapper
  simp only [bind_assoc, pure_bind]
  rfl

/-- What registering the node that reads the wrapper does, case by case. -/
theorem readWrapper_cases {id : Nat} (receiver : Nat) (name : String) (wrapper : Member)
    (hid : id < graph.size) :
    let key := (Kind.field name true).key [graph.keyOf receiver]
    let reads := Node.readsWrapper wrapper (graph.node id).span
    (∃ inner, graph.find? key = some inner ∧
      (readWrapper id name wrapper receiver).run.run graph =
        (.ok inner, graph.modify inner reads)) ∨
    (graph.isSealed = true ∧ (readWrapper id name wrapper receiver).run.run graph =
      (.error (.registerAfterSeal key), graph)) ∨
    (graph.isSealed = false ∧ graph.find? key = none ∧
      (readWrapper id name wrapper receiver).run.run graph =
        (.ok graph.size, graph.push (reads (.new (.field name true) key [receiver])))) := by
  intro key reads
  obtain ⟨inner, hinner, h⟩ | ⟨hsealed, h⟩ | ⟨hopen, hnew, h⟩ :=
    register_cases (.field name true) [receiver] graph
  · exact .inl ⟨inner, hinner, Operation.run_bind_of_run h⟩
  · refine .inr (.inl ⟨hsealed, ?_⟩)
    unfold readWrapper
    rw [run_bind, h]
    rfl
  · refine .inr (.inr ⟨hopen, hnew, (Operation.run_bind_of_run h).trans ?_⟩)
    have hspan : ((graph.push (.new (.field name true) key [receiver])).node id).span =
        (graph.node id).span :=
      eq_of_push Node.span (fun _ _ => rfl) hid
    have hmodify : (graph.push (.new (.field name true) key [receiver])).modify graph.size reads =
        graph.push (reads (.new (.field name true) key [receiver])) :=
      modify_push_self rfl
    rw [← hmodify]
    exact congrArg (fun span => (Except.ok graph.size, Graph.modify _ graph.size
      (Node.readsWrapper wrapper span))) hspan

theorem takes_readWrapper (hfits : rules.Fits graph) {id receiver : Nat} {name : String}
    {unwrap : Bool} {wrapper : Member} (hkind : (graph.node id).kind = .field name unwrap)
    (hreceiver : (graph.node id).children[0]? = some receiver)
    (hwrapper : rules.typeName wrapper.type.name) (hready : rules.ready graph [receiver])
    (hfound : ∀ inner,
      graph.find? ((Kind.field name true).key [graph.keyOf receiver]) = some inner →
      rules.ready graph (graph.node inner).children) :
    Takes rules (readWrapper id name wrapper receiver) graph fun inner next =>
      (next.node id).children[0]? = some receiver ∧
      next.find? ((Kind.field name true).key [next.keyOf receiver]) = some inner ∧
      (next.node inner).resolvedType.isSome := by
  have hid := lt_size_of_children (List.mem_of_getElem? hreceiver)
  have hlt := hfits.children_lt id receiver (List.mem_of_getElem? hreceiver)
  have hcases := readWrapper_cases receiver name wrapper hid
  -- the state behind it is reached by one step, and then the receiver is the same
  have hok : ∀ inner next, rules.Step graph next →
      (next.node id).children[0]? = (graph.node id).children[0]? →
      next.find? ((Kind.field name true).key [graph.keyOf receiver]) = some inner →
      (next.node inner).resolvedType.isSome → rules.Steps graph next ∧
        (next.node id).children[0]? = some receiver ∧
        next.find? ((Kind.field name true).key [next.keyOf receiver]) = some inner ∧
        (next.node inner).resolvedType.isSome := by
    intro inner next hstep hchild hinner hresolved
    rw [hstep.keyOf hlt, hchild]
    exact ⟨.single hstep, hreceiver, hinner, hresolved⟩
  refine ensures_of_run (fun inner next hrun => ?_) fun e next hrun => ?_
  · obtain ⟨found, hinner, h⟩ | ⟨-, h⟩ | ⟨hopen, hnew, h⟩ := hcases
    · cases h.symm.trans hrun
      have hannotates : rules.Annotates graph (graph.node inner)
          ((graph.node inner).readsWrapper wrapper (graph.node id).span) :=
        annotates_readsWrapper hwrapper (hfound inner hinner)
      have hstep := Rules.Step.annotate hannotates
      refine hok inner _ hstep ?_ (Steps.keeps (.single hstep) _ _ hinner) ?_
      · rw [eq_of_modify Node.children hannotates.children]
      · rw [node_modify_self (find?_eq_some_iff.mp hinner).1]
        exact Node.resolved_readsWrapper _ _ _
    · cases h.symm.trans hrun
    · cases h.symm.trans hrun
      refine hok _ _ (.registerWrapper hopen hkind hreceiver hnew hwrapper hready) ?_ ?_ ?_
      · rw [children_push hid]
      · exact find?_push_self hnew
      · rw [node_push_self]
        exact Node.resolved_readsWrapper _ _ _
  · obtain ⟨_, _, h⟩ | ⟨_, h⟩ | ⟨_, _, h⟩ := hcases
    · cases h.symm.trans hrun
    · cases h.symm.trans hrun
      exact ⟨.refl, nofun, nofun⟩
    · cases h.symm.trans hrun

theorem takes_splitWrapper (hcovers : rules.Covers classes) (hfits : rules.Fits graph) {id : Nat}
    {name : String} {unwrap : Bool} {wrapper : Member}
    (hkind : (graph.node id).kind = .field name unwrap) (hmoves : rules.moves)
    (hmarked : Marked rules graph id) (hwrapper : rules.typeName wrapper.type.name)
    (hready : ∀ receiver, (graph.node id).children[0]? = some receiver →
      rules.ready graph [receiver] ∧
      ∀ inner, graph.find? ((Kind.field name true).key [graph.keyOf receiver]) = some inner →
        rules.ready graph (graph.node inner).children) :
    Takes rules (splitWrapper classes id name wrapper) graph fun type _ =>
      rules.typeName type.name := by
  rw [splitWrapper_eq]
  refine takes_get_bind (takes_operand_bind fun receiver hreceiver => ?_)
  have hid := lt_size_of_children (List.mem_of_getElem? hreceiver)
  obtain ⟨hready, hfound⟩ := hready receiver hreceiver
  refine takes_bind (takes_readWrapper hfits hkind hreceiver hwrapper hready hfound) ?_
  rintro inner next hsteps ⟨hreceiver, hfound, hresolved⟩
  refine takes_bind (takes_modify (R := fun _ _ => True) (.moveToWrapper hmoves
    (hmarked.steps hid hsteps) ((Steps.kind hsteps hid).trans hkind) hreceiver hfound hresolved)
    trivial) fun _ _ _ _ => ?_
  refine takes_lookup_bind fun value hvalue => ?_
  exact takes_annotate_return (.of_eq rfl) fun _ _ => hcovers.findMember hvalue

theorem typeName_mathType (hcovers : rules.Covers classes) {op : MathOp} {lhs rhs : ClassType}
    (hlhs : rules.typeName lhs.name) (hrhs : rules.typeName rhs.name) :
    rules.typeName (mathType op lhs rhs).name := by
  unfold mathType
  split
  · exact hcovers.builtin _ (by decide)
  · split
    · split
      · exact hcovers.builtin _ (by decide)
      · split
        · exact hrhs
        · exact hlhs
    · exact hlhs

/-- An operation that gives known types, from every graph that fits. -/
def TakesType (rules : Rules) (operation : GraphM ClassType) : Prop :=
  ∀ graph, rules.Fits graph → Takes rules operation graph fun type _ => rules.typeName type.name

section

variable {resolveChild : Nat → GraphM ClassType}
  (hchild : ∀ id, TakesType rules (resolveChild id))

include hchild

theorem takes_resolveField (hfree : rules.Free) (hcovers : rules.Covers classes)
    (hfits : rules.Fits graph) {id : Nat} {name : String} {unwrap : Bool}
    (hkind : (graph.node id).kind = .field name unwrap) (hmarked : Marked rules graph id) :
    Takes rules (resolveField classes resolveChild id name) graph fun type _ =>
      rules.typeName type.name := by
  refine takes_get_bind (takes_operand_bind fun receiver hreceiver => ?_)
  have hid := lt_size_of_children (List.mem_of_getElem? hreceiver)
  refine takes_bind (hchild receiver graph hfits) fun type resolved hresolve htype => ?_
  refine takes_isClassRef_bind (takes_lookup_bind fun member hmember => ?_)
  have hmember := hcovers.findMember hmember
  have hid' := Nat.lt_of_lt_of_le hid (Steps.size_le hresolve)
  refine takes_bind (takes_moveToClass hid' hfree.moves (hmarked.steps hid hresolve) member _
    htype fun _ _ _ _ => hfree.ready _ _) fun _ moved hmove _ => ?_
  split
  · have hsteps := hresolve.trans hmove
    exact takes_splitWrapper hcovers (hfits.steps hsteps) ((Steps.kind hsteps hid).trans hkind)
      hfree.moves (hmarked.steps hid hsteps) hmember
      fun _ _ => ⟨hfree.ready _ _, fun _ _ => hfree.ready _ _⟩
  · exact takes_annotate_return (.of_eq rfl) fun _ _ => hmember

theorem takes_resolveChildren (hfits : rules.Fits graph) (ids : List Nat) :
    Takes rules (ids.mapM resolveChild) graph fun _ _ => True :=
  takes_mapM fun id _ next hsteps =>
    (hchild id next (hfits.steps hsteps)).imp fun _ _ _ _ => trivial

theorem takes_resolveCall (hfree : rules.Free) (hcovers : rules.Covers classes)
    (hfits : rules.Fits graph) {id : Nat}
    (name : String) (hmarked : Marked rules graph id) :
    Takes rules (resolveCall classes resolveChild id name) graph fun type _ =>
      rules.typeName type.name := by
  refine takes_get_bind (takes_operand_bind fun target htarget => ?_)
  have hid := lt_size_of_children (List.mem_of_getElem? htarget)
  refine takes_bind (hchild target graph hfits) fun type resolved hresolve htype => ?_
  refine takes_bind (takes_resolveChildren hchild (hfits.steps hresolve) _)
    fun args resolved hargs _ => ?_
  refine takes_isClassRef_bind (takes_lookup_bind fun member hmember => ?_)
  have hsteps := hresolve.trans hargs
  have hid' := Nat.lt_of_lt_of_le hid (Steps.size_le hsteps)
  refine takes_bind (takes_moveToClass hid' hfree.moves (hmarked.steps hid hsteps) member _
    htype fun _ _ _ _ => hfree.ready _ _) fun _ _ _ _ => ?_
  exact takes_annotate_return (.of_eq rfl) fun _ _ => hcovers.findMethod hmember

theorem takes_resolveOperand (hfits : rules.Fits graph) (node : Node) (position : Nat) :
    Takes rules (operand node position >>= resolveChild) graph fun type _ =>
      rules.typeName type.name :=
  takes_operand_bind fun child _ => hchild child graph hfits

theorem takes_resolveKind (hfree : rules.Free) (hcovers : rules.Covers classes)
    (hfits : rules.Fits graph) {id : Nat}
    (hid : (graph.node id).resolvedType = none) :
    Takes rules (resolveKind classes resolveChild id) graph fun type _ =>
      rules.typeName type.name := by
  have hclass (name : String) : Takes rules (lookup id (classes.findClass name)) graph
      fun type _ => rules.typeName type.name :=
    (takes_lookup id _).imp fun type _ _ htype => hcovers.findClass htype.2
  have hboolean : rules.typeName (ClassType.plain TypeName.boolean).name :=
    hcovers.builtin _ (by decide)
  refine takes_get_bind ?_
  dsimp only
  split
  · split
    · exact (takes_lookup id _).imp fun _ _ _ h => by cases h.2
    · exact hclass _
  · exact hclass _
  · exact hclass _
  · next hkind =>
    exact takes_resolveField hchild hfree hcovers hfits hkind (marked_of_unresolved hfits hid)
  · exact takes_resolveCall hchild hfree hcovers hfits _ (marked_of_unresolved hfits hid)
  · refine takes_bind (takes_resolveOperand hchild hfits _ 0) fun lhs next hsteps hlhs => ?_
    refine takes_bind (takes_resolveOperand hchild (hfits.steps hsteps) _ 1)
      fun rhs next _ hrhs => takes_pure ?_
    exact typeName_mathType hcovers hlhs hrhs
  · exact takes_bind (takes_resolveChildren hchild hfits _) fun _ _ _ _ =>
      takes_pure hboolean
  · exact takes_bind (takes_resolveChildren hchild hfits _) fun _ _ _ _ =>
      takes_pure hboolean
  · exact takes_bind (takes_resolveChildren hchild hfits _) fun _ _ _ _ =>
      takes_pure hboolean
  · exact takes_resolveOperand hchild hfits _ 0
  · refine takes_bind (takes_resolveOperand hchild hfits _ 0) fun _ next hpredicate _ => ?_
    refine takes_operand_bind fun whenTrue _ => ?_
    refine takes_bind (hchild whenTrue next (hfits.steps hpredicate))
      fun trueType next' htrue htrueType => ?_
    refine takes_bind (takes_resolveOperand hchild
      (hfits.steps (hpredicate.trans htrue)) _ 2) fun falseType next'' _ hfalseType => ?_
    refine takes_get_bind (takes_pure ?_)
    split
    · exact hfalseType
    · exact htrueType

end

theorem takes_resolveWithin (hfree : rules.Free) (hcovers : rules.Covers classes) (bound id : Nat) :
    TakesType rules (resolveWithin classes bound id) := by
  induction bound generalizing id with
  | zero =>
    exact fun graph _ => takes_get_bind (takes_throw (GraphError.reports_cycle hfree.cycles))
  | succ bound ih =>
    intro graph hfits
    refine takes_get_bind ?_
    split
    · next type htype => exact takes_pure (hfits.typeName id type htype)
    · next hid =>
      refine takes_bind (takes_resolveKind ih hfree hcovers hfits hid)
        fun type next hsteps htype => ?_
      refine takes_bind (takes_modifyNode (R := fun _ _ => True) ⟨rfl, rfl, rfl, rfl,
        fun _ => rfl, fun other hother => ?_, fun _ _ => hfree.ready _ _, fun _ => .inl⟩ trivial)
        fun _ _ _ _ => takes_pure htype
      cases hother
      exact .inr htype

theorem takes_resolve (hfree : rules.Free) (hcovers : rules.Covers classes) (id : Nat) :
    TakesType rules (resolve classes id) :=
  fun graph hfits => takes_get_bind (takes_resolveWithin hfree hcovers _ id graph hfits)

/-! ## Classifying and sealing -/

theorem takes_classifyWithin (hfree : rules.Free) (hcovers : rules.Covers classes)
    (hfits : rules.Fits graph) (bound id : Nat) :
    Takes rules (classifyWithin classes bound id) graph fun _ _ => True := by
  induction bound generalizing id graph with
  | zero => exact takes_get_bind (takes_throw (GraphError.reports_cycle hfree.cycles))
  | succ bound ih =>
    refine takes_get_bind ?_
    split
    · exact takes_pure trivial
    · refine takes_bind (takes_resolve hfree hcovers id graph hfits) fun _ next hsteps _ => ?_
      refine takes_get_bind ?_
      refine takes_bind (takes_mapM fun child _ last hmore =>
        ih ((hfits.steps hsteps).steps hmore) child) fun children last _ _ => ?_
      exact takes_bind (takes_modifyNode (R := fun _ _ => True) (.of_eq rfl) trivial)
        fun _ _ _ _ => takes_pure trivial

theorem takes_classify (hfree : rules.Free) (hcovers : rules.Covers classes)
    (hfits : rules.Fits graph) (id : Nat) :
    Takes rules (classify classes id) graph fun _ _ => True :=
  takes_bind (takes_resolve hfree hcovers id graph hfits) fun _ _ hsteps _ =>
    takes_get_bind (takes_classifyWithin hfree hcovers (hfits.steps hsteps) _ id)

theorem takes_classifyFrom (hfree : rules.Free) (hcovers : rules.Covers classes)
    (hfits : rules.Fits graph) (bound id : Nat) :
    Takes rules (classifyFrom classes bound id) graph fun _ _ => True := by
  induction bound generalizing id graph with
  | zero => exact takes_pure trivial
  | succ bound ih =>
    refine takes_get_bind ?_
    split
    · exact takes_bind (takes_classify hfree hcovers hfits id) fun _ _ hsteps _ =>
        ih (hfits.steps hsteps) (id + 1)
    · exact takes_pure trivial

theorem takes_classifyAll (hfree : rules.Free) (hcovers : rules.Covers classes)
    (hfits : rules.Fits graph) :
    Takes rules (classifyAll classes) graph fun _ _ => True :=
  takes_get_bind (takes_bind (takes_classifyFrom hfree hcovers hfits _ 0) fun _ _ hsteps _ =>
    takes_get_bind (takes_classifyFrom hfree hcovers (hfits.steps hsteps) _ _))

theorem takes_sealGraph (hfree : rules.Free) (hcovers : rules.Covers classes)
    (hfits : rules.Fits graph) :
    Takes rules (sealGraph classes) graph fun _ _ => True := by
  refine takes_get_bind ?_
  dsimp only
  split
  · exact takes_throw (GraphError.reports_of_isPlain rfl)
  · refine takes_bind (takes_classifyAll hfree hcovers hfits) fun _ next _ _ => takes_get_bind ?_
    split
    · exact takes_throw (GraphError.reports_cycle hfree.cycles)
    · exact takes_set (.freeze _) trivial

theorem takes_plan : Takes rules plan graph fun _ _ => True := by
  have hrequire : Takes rules requireSealed graph fun _ _ => True := by
    refine takes_get_bind ?_
    split
    · exact takes_pure trivial
    · exact takes_throw (GraphError.reports_of_isPlain rfl)
  refine takes_bind hrequire fun state next _ _ => ?_
  dsimp only
  refine takes_bind (takes_modify (R := fun _ _ => True) (.freeze _) trivial) fun _ _ _ _ => ?_
  split
  · exact takes_pure trivial
  · next e _ =>
    refine takes_get_bind (takes_throw ?_)
    cases e <;> exact GraphError.reports_of_isPlain rfl

end GraphM
end BindingPlan
