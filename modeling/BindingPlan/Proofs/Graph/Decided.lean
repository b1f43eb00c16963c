import BindingPlan.Proofs.Graph.Judged

/-!
# Operations that agree with a dictionary

An operation on a graph that agrees with a dictionary leaves such a graph behind, and gives what the
meanings of keys say; where it fails, that is due to a meaning, or to a walk that runs into a cycle.
Nodes are registered, links move to nodes that are found by their keys, and members are noted: none
of it depends on what was done before.

Main results:

* `GraphM.Decides`: the operation keeps a graph in agreement, and when it may fail.
* `GraphM.decides_register`: a new node agrees if the meaning of its key follows from its children.
* `GraphM.decides_moveToClass`, `GraphM.decides_splitWrapper`: links of a node move.
-/

namespace BindingPlan

namespace GraphM

open BindingPlan.Graph BindingPlan.Graph.Rules Operation

variable {α β : Type} {classes : ClassRegistry} {dict : Dictionary classes} {table : ImportTable}
  {busy busy' : Nat → Prop} {graph next : Graph} {id : Nat} {x : GraphM α} {f : α → GraphM β}
  {R : α → Graph → Prop} {gives : β → Graph → Prop} {fails : Prop}

/-- The operation keeps a graph in agreement with the dictionary, save for busy nodes if it
succeeds. It gives results as said, and fails only as said or since a walk runs into a cycle. -/
def Decides (dict : Dictionary classes) (table : ImportTable) (busy : Nat → Prop)
    (operation : GraphM α) (graph : Graph) (R : α → Graph → Prop) (fails : Prop) : Prop :=
  Ensures operation graph
    (fun a next => graph.Grows next ∧ Judged dict table busy next ∧ R a next)
    fun e next => graph.Grows next ∧ Judged dict table (fun _ => False) next ∧
      (fails ∨ ∃ key, e = .dependencyCycle key)

/-! ## Sequences -/

theorem decides_pure {a : α} (h : Judged dict table busy graph) (ha : R a graph) :
    Decides dict table busy (pure a) graph R fails :=
  ensures_pure ⟨.refl, h, ha⟩

theorem decides_throw {e : GraphError} (h : Judged dict table (fun _ => False) graph)
    (he : fails ∨ ∃ key, e = .dependencyCycle key) :
    Decides dict table busy (throw e) graph R fails :=
  ensures_throw ⟨.refl, h, he⟩

theorem decides_bind (hx : Decides dict table busy x graph R fails)
    (hf : ∀ a next, graph.Grows next → Judged dict table busy next → R a next →
      Decides dict table busy' (f a) next gives fails) :
    Decides dict table busy' (x >>= f) graph gives fails := by
  refine ensures_bind hx ?_
  rintro a next ⟨hsteps, hjudged, ha⟩
  refine (hf a next hsteps hjudged ha).imp ?_ ?_
  · rintro b last ⟨hmore, hb⟩
    exact ⟨hsteps.trans hmore, hb⟩
  · rintro e last ⟨hmore, he⟩
    exact ⟨hsteps.trans hmore, he⟩

theorem Decides.imp {wanted : α → Graph → Prop} {given : Prop}
    (h : Decides dict table busy x graph R given)
    (hok : ∀ a next, graph.Grows next → Judged dict table busy next → R a next → wanted a next)
    (hfails : given → fails) : Decides dict table busy x graph wanted fails :=
  Ensures.imp h (fun a next ha => ⟨ha.1, ha.2.1, hok a next ha.1 ha.2.1 ha.2.2⟩)
    fun _ _ he => ⟨he.1, he.2.1, he.2.2.imp_left hfails⟩

/-- A sequence, where the first step fails only if the whole may. -/
theorem Decides.bind {given : Prop} (hx : Decides dict table busy x graph R given)
    (hfails : given → fails)
    (hf : ∀ a next, graph.Grows next → Judged dict table busy next → R a next →
      Decides dict table busy' (f a) next gives fails) :
    Decides dict table busy' (x >>= f) graph gives fails :=
  decides_bind (hx.imp (fun _ _ _ _ ha => ha) hfails) hf

theorem Decides.of_busy (h : Decides dict table busy x graph R fails)
    (hbusy : ∀ i, busy i → busy' i) : Decides dict table busy' x graph R fails :=
  Ensures.imp h (fun _ _ ha => ⟨ha.1, ha.2.1.of_busy hbusy, ha.2.2⟩) fun _ _ he => he

theorem decides_get_bind {f : Graph → GraphM β}
    (h : Decides dict table busy (f graph) graph gives fails) :
    Decides dict table busy (get >>= f) graph gives fails := by
  unfold Decides Ensures at h ⊢
  rw [run_bind, run_get]
  exact h

theorem decides_mapM {f : α → GraphM β} {list : List α}
    (hjudged : Judged dict table busy graph)
    (h : ∀ a ∈ list, ∀ next, graph.Grows next → Judged dict table busy next →
      Decides dict table busy (f a) next (fun _ _ => True) fails) :
    Decides dict table busy (list.mapM f) graph (fun _ _ => True) fails := by
  induction list generalizing graph with
  | nil =>
    rw [List.mapM_nil]
    exact decides_pure hjudged trivial
  | cons a list ih =>
    rw [List.mapM_cons]
    refine decides_bind (h a List.mem_cons_self graph .refl hjudged) fun _ next hgrows hnext _ => ?_
    refine decides_bind (ih hnext fun a ha last hmore => ?_) fun _ _ _ hjudged _ =>
      decides_pure hjudged trivial
    exact h a (List.mem_cons_of_mem _ ha) last (hgrows.trans hmore)

theorem decides_modify {change : Graph → Graph} {R : PUnit → Graph → Prop}
    (hstep : (Rules.any fun _ => True).Step graph (change graph))
    (h : Judged dict table busy (change graph)) (hR : R ⟨⟩ (change graph)) :
    Decides dict table busy (modify change) graph R fails :=
  ensures_modify ⟨.single hstep, h, hR⟩

theorem decides_set {R : PUnit → Graph → Prop}
    (hstep : (Rules.any fun _ => True).Step graph next) (h : Judged dict table busy next)
    (hR : R ⟨⟩ next) : Decides dict table busy (set next) graph R fails :=
  ensures_set ⟨.single hstep, h, hR⟩

/-- Annotating what no type hangs on. -/
theorem decides_annotate {change : Node → Node} {R : PUnit → Graph → Prop}
    (hannotates : (Rules.any fun _ => True).Annotates graph (graph.node id)
      (change (graph.node id)))
    (h : Judged dict table busy graph)
    (hcore : (change (graph.node id)).core = (graph.node id).core)
    (hR : R ⟨⟩ (graph.modify id change)) :
    Decides dict table busy (modifyNode id change) graph R fails :=
  decides_modify (.annotate hannotates) (h.annotate (.annotate hannotates) hcore) hR

/-- A result that is given once its node is annotated. -/
theorem decides_annotate_return {a : α} {change : Node → Node}
    (hannotates : (Rules.any fun _ => True).Annotates graph (graph.node id)
      (change (graph.node id)))
    (h : Judged dict table busy graph)
    (hcore : (change (graph.node id)).core = (graph.node id).core)
    (hR : R a (graph.modify id change)) :
    Decides dict table busy (do modifyNode id change; return a) graph R fails :=
  decides_bind (R := fun _ next => R a next) (decides_annotate hannotates h hcore hR)
    fun _ _ _ hjudged ha => decides_pure hjudged ha

theorem decides_lookup {result : Except ResolveError α}
    (h : Judged dict table (fun _ => False) graph) :
    Decides dict table (fun _ => False) (lookup id result) graph
      (fun value _ => result.toOption = some value) (result.toOption = none) := by
  cases result with
  | ok value => exact decides_pure h rfl
  | error cause => exact decides_get_bind (decides_throw h (.inl rfl))

theorem decides_lookup_bind {id : Nat} {result : Except ResolveError α}
    (h : Judged dict table (fun _ => False) graph) (herror : ∀ cause, result = .error cause → fails)
    (hok : ∀ value, result = .ok value →
      Decides dict table busy (f value) graph gives fails) :
    Decides dict table busy (lookup id result >>= f) graph gives fails := by
  cases result with
  | ok value => exact hok value rfl
  | error cause =>
    have hthrow : Decides dict table busy (lookup id (.error cause : Except ResolveError α)) graph
        (fun _ _ => False) fails :=
      decides_get_bind (decides_throw h (.inl (herror cause rfl)))
    exact decides_bind hthrow fun _ _ _ _ hnot => hnot.elim

theorem decides_operand_bind {f : Nat → GraphM β} {node : Node} {position child : Nat}
    (hchild : node.children[position]? = some child)
    (h : Decides dict table busy (f child) graph gives fails) :
    Decides dict table busy (operand node position >>= f) graph gives fails := by
  unfold operand
  rw [hchild, pure_bind]
  exact h

theorem decides_isClassRef_bind {f : Bool → GraphM β}
    (h : Decides dict table busy (f (graph.node id).kind.isClassRef) graph gives fails) :
    Decides dict table busy (isClassRef id >>= f) graph gives fails :=
  decides_get_bind h

theorem decides_bindRoot (h : Judged dict table busy graph) (id : Nat) :
    Decides dict table busy (GraphM.bind id) graph (fun _ _ => True) fails := by
  have hmark : Decides dict table busy
      (modifyNode id fun node => { node with isBinding := true }) graph (fun _ _ => True) fails :=
    decides_annotate (.of_eq rfl) h rfl trivial
  unfold GraphM.bind Decides Ensures
  rw [run_bind_of_run (run_ensureOpen h.isOpen)]
  exact hmark

/-! ## Registering -/

/-- A new node agrees if its key means what the meanings of its children make of it. -/
theorem decides_register {kind : Kind} {children : List Nat} (h : Judged dict table busy graph)
    (hchildren : ∀ child ∈ children, child < graph.size ∧ graph.Plain child)
    (hkind : ∀ name, kind ≠ .field name true)
    (hshape : kind.isLeaf = true ∧ children = [] ∨ kind.Composes children.length)
    (hspelled : Spelled dict.known (kind.key (children.map graph.keyOf)).toList)
    (hmeaning : dict.meaning? (kind.key (children.map graph.keyOf)) =
      ((Node.new kind (kind.key (children.map graph.keyOf)) children).type? classes
        (graph.meanings dict children)).map kind.meaning) :
    Decides dict table busy (register kind children) graph
      (fun id next => next.find? (kind.key (children.map graph.keyOf)) = some id) fails := by
  refine ensures_of_run (fun id next hrun => ?_) fun e next hrun => ?_
  · have hfinds := finds_register kind children graph id next hrun
    obtain ⟨found, -, hfound⟩ | ⟨-, hsealed⟩ | ⟨hopen, hnew, hpush⟩ :=
      register_cases kind children graph
    · cases hfound.symm.trans hrun
      exact ⟨.refl, h, hfinds⟩
    · cases hsealed.symm.trans hrun
    · cases hpush.symm.trans hrun
      have hstep : (Rules.any fun _ => True).Step graph
          (graph.push (.new kind (kind.key (children.map graph.keyOf)) children)) :=
        .register hopen hnew fun child hchild => (hchildren child hchild).1
      refine ⟨.single hstep, h.push hstep ⟨fun name hname => absurd hname (hkind name),
        fun _ => hspelled, fun _ => hshape, fun meaning hfound _ => ?_, nofun, fun _ _ => ?_, nofun⟩
        fun child hchild => (hchildren child hchild).1, hfinds⟩
      · rw [show (Node.new kind (kind.key (children.map graph.keyOf)) children).key =
          kind.key (children.map graph.keyOf) from rfl, hmeaning] at hfound
        obtain ⟨type, -, rfl⟩ := Option.map_eq_some_iff.mp hfound
        exact ⟨rfl, rfl⟩
      · exact ⟨fun child hchild => (hchildren child hchild).2, hmeaning⟩
  · obtain ⟨found, -, hfound⟩ | ⟨hsealed, -⟩ | ⟨-, -, hpush⟩ := register_cases kind children graph
    · cases hfound.symm.trans hrun
    · cases hsealed.symm.trans h.isOpen
    · cases hpush.symm.trans hrun

/-- A literal gets its type also if a variable has its key, which then means the same. -/
theorem decides_symbol (h : Judged dict table busy graph) {text type : String}
    (hspelled : Spelled dict.known text.toList)
    (hmeaning : dict.meaning? text =
      (classes.findClass type).toOption.map (Kind.symbol text type).meaning) :
    Decides dict table busy (symbol text type) graph (fun id next => next.find? text = some id)
      fails := by
  refine decides_bind (decides_register h nofun nofun (.inl ⟨rfl, rfl⟩) hspelled hmeaning)
    fun id next _ hjudged hfound => ?_
  have hfound : next.find? text = some id := hfound
  have hannotates : (Rules.any fun _ => True).Annotates next (next.node id)
      { next.node id with declaredType := some type } := .of_eq rfl
  refine decides_bind (decides_modify (.annotate hannotates) (R := fun _ last =>
    last.find? text = some id) ?_ (Steps.keeps (.single (.annotate hannotates)) _ id hfound))
    fun _ _ _ hjudged hfound => decides_pure hjudged hfound
  refine hjudged.modify (.annotate hannotates) (fun _ _ h => h) fun hid => ?_
  have hagrees := hjudged.agrees id hid
  refine hagrees.declare fun name hkind => ?_
  have hkey : (next.node id).key = text := keyOf_of_find? hfound
  rw [hkey, hmeaning, hkind]
  show _ = (classes.findClass type).toOption.map _
  cases hclass : (classes.findClass type).toOption with
  | none => rfl
  | some found =>
    -- the variable is not the literal `null`
    have hfound :
        dict.meaning? (next.node id).key = some ((Kind.symbol text type).meaning found) := by
      rw [hkey, hmeaning, hclass, Option.map_some]
    have hnull := (hagrees.kind _ hfound fun name hname => by cases hkind.symm.trans hname).2
    rw [hkind] at hnull
    exact congrArg (fun isNull => some (Meaning.mk found false isNull)) hnull

/-- What is found by a key that means a class is the reference of a class. -/
theorem isClassRef_of_find? (h : Judged dict table busy graph) {type : ClassType}
    (htype : classes.findClass type.name = .ok type)
    (hfound : graph.find? (Kind.classKey type.name) = some id) :
    id < graph.size ∧ (graph.node id).kind.isClassRef = true ∧
      dict.meaning? (graph.node id).key = some ⟨type, true, false⟩ := by
  obtain ⟨hid, hkey, -⟩ := find?_eq_some_iff.mp hfound
  have hmeaning : dict.meaning? (graph.node id).key = some ⟨type, true, false⟩ := by
    rw [← dict.ofClass _ type htype]
    exact congrArg dict.meaning? hkey
  have hspelled : Spelled dict.known (graph.keyOf id).toList := by
    rw [hkey, Kind.classKey, String.toList_append]
    exact .ref (dict.findClass _ type htype)
  exact ⟨hid, ((h.agrees id hid).kind _ hmeaning (h.plain_of_spelled hid hspelled)).1.symm,
    hmeaning⟩

theorem decides_classRef (h : Judged dict table busy graph) (shortName : String) {type : ClassType}
    (htype : classes.findClass type.name = .ok type) :
    Decides dict table busy (classRef shortName type.name) graph
      (fun id next => next.find? (Kind.classKey type.name) = some id) fails := by
  refine decides_bind (decides_register h nofun nofun (.inl ⟨rfl, rfl⟩) ?_ ?_)
    fun id next _ hjudged hfound => ?_
  · show Spelled dict.known (Kind.classKey type.name).toList
    rw [Kind.classKey, String.toList_append]
    exact .ref (dict.findClass _ type htype)
  · show dict.meaning? (Kind.classKey type.name) = ((classes.findClass type.name).toOption).map _
    rw [dict.ofClass _ type htype, htype]
    rfl
  · obtain ⟨hid, hkind, -⟩ := isClassRef_of_find? hjudged htype hfound
    have hannotates : (Rules.any fun _ => True).Annotates next (next.node id)
        { next.node id with declaredType := some type.name } := .of_eq rfl
    refine decides_bind (decides_modify (.annotate hannotates) (R := fun _ last =>
      last.find? (Kind.classKey type.name) = some id) ?_ ?_) fun _ _ _ hjudged hfound =>
        decides_pure hjudged hfound
    · exact hjudged.modify (.annotate hannotates) (fun _ _ h => h)
        fun hid => (hjudged.agrees id hid).declare fun name hname => by
          rw [hname] at hkind
          cases hkind
    · exact Steps.keeps (.single (.annotate hannotates)) _ id hfound

/-- The reference of a class of the registry is found or registered. -/
theorem decides_classRefFor (h : Judged dict table busy graph) {type : ClassType}
    (htype : classes.findClass type.name = .ok type) :
    Decides dict table busy (classRefFor type) graph
      (fun id next => next.find? (Kind.classKey type.name) = some id) fails := by
  refine decides_get_bind ?_
  dsimp only
  split
  · next id hfound => exact decides_pure h hfound
  · rw [if_neg (Bool.eq_false_iff.mp h.isOpen)]
    have himports : Judged dict table busy { graph with imports :=
        (graph.imports.nameFor type.name (TypeName.simple type.name)).2 } :=
      h.step (.importClass _) h.isOpen (h.imports.nameFor htype) (fun _ hi => hi)
        fun _ hi => .inl ⟨hi, rfl⟩
    refine decides_bind (R := fun _ _ => True) (decides_set (.importClass _) himports trivial)
      fun _ imported _ hjudged _ => ?_
    refine decides_bind (decides_classRef hjudged _ htype) fun id next _ hjudged hfound => ?_
    obtain ⟨hid, hkind, hmeaning⟩ := isClassRef_of_find? hjudged htype hfound
    have hannotates : (Rules.any fun _ => True).Annotates next (next.node id)
        { next.node id with resolvedType := (next.node id).resolvedType.or (some type) } := by
      refine ⟨rfl, rfl, rfl, rfl, fun hnode => ?_, fun _ _ => .inr trivial, fun _ _ => trivial,
        fun _ => .inl⟩
      rw [Option.isSome_or, hnode]
      rfl
    refine decides_bind (decides_modify (.annotate hannotates) (R := fun _ last =>
      last.find? (Kind.classKey type.name) = some id) ?_ ?_) fun _ _ _ hjudged hfound =>
        decides_pure hjudged hfound
    · refine hjudged.modify (.annotate hannotates) (fun _ _ h => h) fun hid => ?_
      have hagrees := hjudged.agrees id hid
      dsimp only [Node.changed]
      cases hresolved : (next.node id).resolvedType with
      | some other =>
        refine hagrees.of_core ?_
        unfold Node.core
        rw [hresolved]
        rfl
      | none =>
        refine hagrees.resolve hmeaning ?_
        -- the reference of a class has no children
        have hleaf : (next.node id).children = [] := by
          have hshape := hagrees.shape fun name hname => by
            rw [hname] at hkind
            cases hkind
          refine (hshape.resolve_right fun hcomposes => ?_).2
          generalize (next.node id).kind = kind, (next.node id).children.length = n
            at hkind hcomposes
          cases hcomposes <;> cases hkind
        rw [hleaf]
        exact fun _ hchild => absurd hchild List.not_mem_nil
    · exact Steps.keeps (.single (.annotate hannotates)) _ id hfound

/-! ## Moving links -/

/-- Moving a node to the class of its receiver, if it has a meaning. -/
theorem decides_moveToClass (h : Judged dict table (fun _ => False) graph) (hid : id < graph.size)
    (hplain : graph.Plain id) {meaning : Meaning}
    (hmeaning : dict.meaning? (graph.keyOf id) = some meaning) (member : Member) {type : ClassType}
    (isStatic : Bool) (htype : classes.findClass type.name = .ok type) :
    Decides dict table (· = id) (moveToClass id member type isStatic) graph
      (fun _ next => ∀ child ∈ (next.node id).children, next.Means dict child) fails := by
  unfold moveToClass
  split
  · refine decides_bind (decides_classRefFor h htype) fun ref next hgrows hjudged hfound => ?_
    have hid' := Nat.lt_of_lt_of_le hid (Steps.size_le hgrows)
    have hplain' := hplain.grows hid hgrows
    have hmeaning' : dict.meaning? (next.node id).key = some meaning := by
      rw [← hmeaning]
      exact congrArg dict.meaning? (Steps.keyOf hgrows hid)
    obtain ⟨hlt, -, hclass⟩ := isClassRef_of_find? hjudged htype hfound
    have href : next.Means dict ref := fun _ => ⟨_, hclass⟩
    have hstep : (Rules.any fun _ => True).Step next (next.replaceChild id 0 ref) :=
      .moveToClass trivial (fun _ _ => trivial) trivial hfound
    refine decides_modify hstep ?_ ?_
    · exact (hjudged.replaceChild hstep href hlt).of_busy fun _ hi => hi.resolve_left not_false
    · intro child hchild
      have hmeans : next.Means dict child ∧ child < next.size := by
        rcases hasChild_replaceChild hchild with hold | ⟨-, rfl⟩
        · exact ⟨(hjudged.agrees id hid').means_of_meaning? hplain' hmeaning' child hold,
            hjudged.linked.children_lt hold⟩
        · exact ⟨href, hlt⟩
      exact hmeans.1.grows hmeans.2 (.single hstep)
  · exact decides_pure (h.of_busy nofun)
      ((h.agrees id hid).means_of_meaning? hplain hmeaning)

/-- A type that is given once the member of its node is set. -/
theorem decides_setMember (h : Judged dict table busy graph)
    (hmeans : ∀ child ∈ (graph.node id).children, graph.Means dict child) (member : Member)
    (type : ClassType) :
    Decides dict table busy
      (do modifyNode id fun node => { node with member := some member }; return type) graph
      (fun found next => found = type ∧ ∀ child ∈ (next.node id).children, next.Means dict child)
      fails := by
  have hannotates : (Rules.any fun _ => True).Annotates graph (graph.node id)
      { graph.node id with member := some member } := .of_eq rfl
  refine decides_annotate_return hannotates h rfl ⟨rfl, fun child hchild => ?_⟩
  rw [eq_of_modify Node.children rfl] at hchild
  exact (hmeans child hchild).grows (h.linked.children_lt hchild) (.single (.annotate hannotates))

/-- The node that reads a wrapper is found or registered, and it is resolved. -/
theorem decides_readWrapper (h : Judged dict table busy graph) {receiver : Nat} {name : String}
    {unwrap : Bool} (wrapper : Member) (hkind : (graph.node id).kind = .field name unwrap)
    (hname : IsName name.toList) (hreceiver : (graph.node id).children[0]? = some receiver)
    (hmeans : graph.Means dict receiver) :
    Decides dict table busy (readWrapper id name wrapper receiver) graph (fun inner next =>
      next.find? ((Kind.field name true).key [graph.keyOf receiver]) = some inner ∧
        ¬ next.Plain inner ∧ (next.node inner).resolvedType.isSome ∧
        (next.node id).children = (graph.node id).children) fails := by
  have hid := lt_size_of_children (List.mem_of_getElem? hreceiver)
  have hlt := h.linked.children_lt (List.mem_of_getElem? hreceiver)
  have hwrapped : Wrapped dict.known (graph.keyOf receiver).toList :=
    (h.agrees receiver hlt).wrapped
  have hkey : ((Kind.field name true).key [graph.keyOf receiver]).toList =
      (graph.keyOf receiver).toList ++ '.' :: '.' :: name.toList := by simp [Kind.key]
  have hcases := readWrapper_cases receiver name wrapper hid
  refine ensures_of_run (fun inner next hrun => ?_) fun e next hrun => ?_
  · obtain ⟨found, hfound, hread⟩ | ⟨-, hsealed⟩ | ⟨hopen, hnew, hpush⟩ := hcases
    · cases hread.symm.trans hrun
      obtain ⟨hinner, hinnerKey, -⟩ := find?_eq_some_iff.mp hfound
      obtain ⟨hsplit, hresolved⟩ :=
        h.resolved_of_wrapper hinner hwrapped hname ((congrArg String.toList hinnerKey).trans hkey)
      -- what is resolved is not annotated again
      rw [modify_eq_self (Node.readsWrapper_eq_self hresolved _ _)]
      exact ⟨.refl, h, hfound, hsplit, hresolved, rfl⟩
    · cases hsealed.symm.trans hrun
    · cases hpush.symm.trans hrun
      have hstep : (Rules.any fun _ => True).Step graph (graph.push (Node.readsWrapper wrapper
          (graph.node id).span (.new (.field name true) _ [receiver]))) :=
        .registerWrapper hopen hkind hreceiver hnew trivial trivial
      refine ⟨.single hstep, h.push hstep ?_ ?_, find?_push_self hnew, ?_, ?_, children_push hid⟩
      · refine ⟨fun _ hnode => ?_, fun hplain => absurd rfl (hplain name),
          fun hplain => absurd rfl (hplain name), fun _ _ hplain => absurd rfl (hplain name),
          fun _ _ hplain => absurd rfl (hplain name),
          fun hnone => absurd hnone (Option.some_ne_none _), fun _ => ?_⟩
        · cases hnode
          exact ⟨hname, rfl, _, hwrapped, hkey⟩
        · rintro child hchild
          cases List.mem_singleton.mp hchild
          exact hmeans
      · rintro child hchild
        cases List.mem_singleton.mp hchild
        exact hlt
      · rw [Plain, node_push_self]
        exact fun hplain => hplain name rfl
      · rw [node_push_self]
        rfl
  · obtain ⟨_, _, hread⟩ | ⟨hsealed, _⟩ | ⟨_, _, hpush⟩ := hcases
    · cases hread.symm.trans hrun
    · cases hsealed.symm.trans h.isOpen
    · cases hpush.symm.trans hrun

/-- Splitting an access gives the type of the value of the wrapper. -/
theorem decides_splitWrapper (h : Judged dict table (· = id) graph) {name : String}
    {wrapper value : Member} (hkind : (graph.node id).kind = .field name false)
    (hid : id < graph.size)
    (hmeans : ∀ child ∈ (graph.node id).children, graph.Means dict child)
    (hvalue : classes.findMember wrapper.type "get" false = .ok value) :
    Decides dict table (· = id) (splitWrapper classes id name wrapper) graph (fun type next =>
      type = value.type ∧ ∀ child ∈ (next.node id).children, next.Means dict child) fails := by
  have hplain : graph.Plain id := fun name hname => by cases hkind.symm.trans hname
  have hcomposes : (Kind.field name false).Composes (graph.node id).children.length := by
    rw [← hkind]
    refine ((h.agrees id hid).shape hplain).resolve_left fun hleaf => ?_
    rw [hkind] at hleaf
    cases hleaf.1
  obtain ⟨receiver, hchildren⟩ : ∃ receiver, (graph.node id).children = [receiver] := by
    generalize hn : (graph.node id).children.length = n at hcomposes
    cases hcomposes
    exact List.length_eq_one_iff.mp hn
  have hmem : receiver ∈ (graph.node id).children := hchildren ▸ List.mem_singleton_self receiver
  have hreceiver : (graph.node id).children[0]? = some receiver := by rw [hchildren]; rfl
  have hlt := h.linked.children_lt hmem
  rw [splitWrapper_eq]
  refine decides_get_bind (decides_operand_bind hreceiver ?_)
  refine decides_bind (decides_readWrapper h wrapper hkind (hcomposes.isName rfl) hreceiver
    (hmeans receiver hmem)) fun inner next hgrows hjudged ⟨hfound, hsplit, hresolved, hsame⟩ => ?_
  have hlt' := Nat.lt_of_lt_of_le hlt (Steps.size_le hgrows)
  have hinner : next.Means dict inner := fun hplain => absurd hplain hsplit
  have hinner_lt := (find?_eq_some_iff.mp hfound).1
  rw [← Steps.keyOf hgrows hlt] at hfound
  have hstep : (Rules.any fun _ => True).Step next (next.replaceChild id 0 inner) :=
    .moveToWrapper trivial (fun _ _ => trivial) ((Steps.kind hgrows hid).trans hkind)
      (hsame ▸ hreceiver) hfound hresolved
  have hmove : Decides dict table (· = id)
      (modify fun graph => graph.replaceChild id 0 inner : GraphM PUnit) next
      (fun _ last => ∀ child ∈ (last.node id).children, last.Means dict child) fails := by
    refine decides_modify hstep ?_ fun child hchild => ?_
    · exact (hjudged.replaceChild hstep hinner hinner_lt).of_busy fun _ hi => hi.elim
        (fun h => h) fun h => h
    · have hchild : next.Means dict child ∧ child < next.size := by
        rcases hasChild_replaceChild hchild with hold | ⟨-, rfl⟩
        · rw [HasChild, hsame, hchildren] at hold
          cases List.mem_singleton.mp hold
          exact ⟨(hmeans receiver hmem).grows hlt hgrows, hlt'⟩
        · exact ⟨hinner, hinner_lt⟩
      exact hchild.1.grows hchild.2 (.single hstep)
  refine decides_bind hmove fun _ last _ hjudged hmeans => ?_
  rw [hvalue]
  exact decides_setMember hjudged hmeans value value.type

end GraphM
end BindingPlan
