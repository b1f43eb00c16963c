import BindingPlan.Proofs.Graph.Linked
import BindingPlan.Proofs.Graph.Settling

/-!
# Classes of nodes

What has a type keeps its children and its member: links only move while a type is looked up, and
only at the node that it is looked up for. So when a node is classified by its member and the
classes of its children, what it was classified by stays what it is, and in every graph the class of
a node follows from the classes of its children.

Main results:

* `Graph.Conserves`: nodes that have types keep their children and members.
* `Graph.Classed`: classes follow from those of children.
* `GraphM.classes_resolve`, `GraphM.classes_classify`, `GraphM.classes_sealGraph`: operations keep
  graphs in this form.
-/

namespace BindingPlan
namespace Graph

variable {graph next last : Graph} {node : Node} {busy : Nat → Prop} {i id : Nat} {name : String}

/-! ## Children and members -/

/-- An access with a type has a member. -/
def Accessed (graph : Graph) (i : Nat) : Prop :=
  (graph.node i).kind.hasReceiver = true → (graph.node i).resolvedType.isSome →
    (graph.node i).member.isSome

/-- Nodes that have types and are not busy keep their children and members. -/
structure Conserves (busy : Nat → Prop) (graph next : Graph) : Prop where
  size_le : graph.size ≤ next.size
  kind : ∀ i < graph.size, (next.node i).kind = (graph.node i).kind
  resolved : ∀ i, (graph.node i).resolvedType.isSome → (next.node i).resolvedType.isSome
  children : ∀ i, ¬ busy i → (graph.node i).resolvedType.isSome →
    (next.node i).children = (graph.node i).children
  member : ∀ i, ¬ busy i → (graph.node i).resolvedType.isSome →
    (next.node i).member = (graph.node i).member
  accessed : ∀ i, graph.Accessed i → next.Accessed i

/-- No class is set. -/
def Still (graph next : Graph) : Prop :=
  ∀ i, (next.node i).dynamic = (graph.node i).dynamic

/-- No class is set, and nodes that have types and are not busy stay as they are. -/
def Rests (busy : Nat → Prop) (graph next : Graph) : Prop :=
  graph.Conserves busy next ∧ graph.Still next

theorem Conserves.refl (graph : Graph) : graph.Conserves busy graph where
  size_le := Nat.le_refl _
  kind := fun _ _ => rfl
  resolved := fun _ h => h
  children := fun _ _ _ => rfl
  member := fun _ _ _ => rfl
  accessed := fun _ h => h

theorem Conserves.trans (h : graph.Conserves busy next) (h' : next.Conserves busy last) :
    graph.Conserves busy last where
  size_le := Nat.le_trans h.size_le h'.size_le
  kind := fun i hi => (h'.kind i (Nat.lt_of_lt_of_le hi h.size_le)).trans (h.kind i hi)
  resolved := fun i hi => h'.resolved i (h.resolved i hi)
  children := fun i hbusy hi =>
    (h'.children i hbusy (h.resolved i hi)).trans (h.children i hbusy hi)
  member := fun i hbusy hi => (h'.member i hbusy (h.resolved i hi)).trans (h.member i hbusy hi)
  accessed := fun i hi => h'.accessed i (h.accessed i hi)

theorem Rests.refl (graph : Graph) : graph.Rests busy graph :=
  ⟨.refl graph, fun _ => rfl⟩

theorem Rests.trans (h : graph.Rests busy next) (h' : next.Rests busy last) :
    graph.Rests busy last :=
  ⟨h.1.trans h'.1, fun i => (h'.2 i).trans (h.2 i)⟩

instance : IsPreorder Graph (Rests busy) where
  refl := .refl
  trans _ _ _ := .trans

/-- A node without a type may well be busy. -/
theorem Conserves.of_unresolved (h : graph.Conserves (· = id) next)
    (hnone : (graph.node id).resolvedType = none) :
    graph.Conserves (fun _ => False) next where
  size_le := h.size_le
  kind := h.kind
  resolved := h.resolved
  children := fun i _ hi => h.children i (fun heq => by rw [heq, hnone] at hi; cases hi) hi
  member := fun i _ hi => h.member i (fun heq => by rw [heq, hnone] at hi; cases hi) hi
  accessed := h.accessed

theorem Conserves.of_free (h : graph.Conserves (fun _ => False) next) :
    graph.Conserves busy next :=
  ⟨h.size_le, h.kind, h.resolved, fun i _ => h.children i id, fun i _ => h.member i id, h.accessed⟩

theorem rests_push (hdynamic : node.dynamic = none)
    (haccessed : node.kind.hasReceiver = true → node.resolvedType.isSome → node.member.isSome) :
    graph.Rests busy (graph.push node) := by
  have hlt {i : Nat} (hi : (graph.node i).resolvedType.isSome) : i < graph.size := by
    by_contra hge
    rw [node_of_size_le (Nat.le_of_not_lt hge)] at hi
    cases hi
  refine ⟨⟨?_, fun i hi => kind_push hi, fun i hi => ?_, fun i _ hi => children_push (hlt hi),
    fun i _ hi => eq_of_push Node.member (fun _ _ => rfl) (hlt hi), fun i h => ?_⟩, fun i => ?_⟩
  · rw [size_push]
    exact Nat.le_succ _
  · rwa [resolvedType_push (hlt hi)]
  · rcases Nat.lt_trichotomy i graph.size with hi | rfl | hi
    · unfold Accessed
      rw [kind_push hi, resolvedType_push hi, eq_of_push Node.member (fun _ _ => rfl) hi]
      exact h
    · unfold Accessed
      rwa [node_push_self]
    · unfold Accessed
      rwa [node_push_of_lt hi]
  · rcases Nat.lt_trichotomy i graph.size with hi | rfl | hi
    · exact eq_of_push Node.dynamic (fun _ _ => rfl) hi
    · rw [node_push_self, node_of_size_le (Nat.le_refl _), hdynamic]
      rfl
    · rw [node_push_of_lt hi]

/-- One node changes, and keeps its children and its member unless it is busy. -/
theorem rests_modify {change : Node → Node}
    (hkind : (change (graph.node id)).kind = (graph.node id).kind)
    (hdynamic : (change (graph.node id)).dynamic = (graph.node id).dynamic)
    (hresolved : (graph.node id).resolvedType.isSome →
      (change (graph.node id)).resolvedType.isSome)
    (hsame : ¬ busy id → (graph.node id).resolvedType.isSome →
      (change (graph.node id)).children = (graph.node id).children ∧
        (change (graph.node id)).member = (graph.node id).member)
    (haccessed : graph.Accessed id → (graph.node id).kind.hasReceiver = true →
      (change (graph.node id)).resolvedType.isSome → (change (graph.node id)).member.isSome) :
    graph.Rests busy (graph.modify id change) := by
  refine ⟨⟨Nat.le_of_eq (size_modify _ _).symm, fun i _ => eq_of_modify Node.kind hkind i,
    fun i hi => ?_, fun i hbusy hi => ?_, fun i hbusy hi => ?_, fun i h => ?_⟩,
    fun i => eq_of_modify Node.dynamic hdynamic i⟩
  · rw [node_modify]
    split
    · next heq => exact hresolved (heq.1 ▸ hi) |> fun h => heq.1 ▸ h
    · exact hi
  · rw [node_modify]
    split
    · next heq =>
      obtain ⟨rfl, -⟩ := heq
      exact (hsame hbusy hi).1
    · rfl
  · rw [node_modify]
    split
    · next heq =>
      obtain ⟨rfl, -⟩ := heq
      exact (hsame hbusy hi).2
    · rfl
  · unfold Accessed
    rw [node_modify]
    split
    · next heq =>
      obtain ⟨rfl, -⟩ := heq
      rw [hkind]
      exact haccessed h
    · exact h

/-- Spans, bindings and declared types can be annotated at will. -/
theorem rests_annotate {change : Node → Node}
    (h : ∀ node, { change node with
      span := node.span, declaredType := node.declaredType, isBinding := node.isBinding } = node) :
    graph.Rests busy (graph.modify id change) := by
  have hnode := Node.Annotated.of_eq (h (graph.node id))
  refine rests_modify hnode.kind hnode.dynamic (fun hi => hnode.resolvedType.symm ▸ hi)
    (fun _ _ => ⟨hnode.children, hnode.member⟩) fun h hkind hsome => ?_
  rw [hnode.resolvedType] at hsome
  rw [hnode.member]
  exact h hkind hsome

/-- Touching a node keeps whatever has a type, if the node is busy. -/
theorem Touches.rests (h : Touches id name graph next) : graph.Rests (· = id) next := by
  have hreplace {child : Nat} : graph.Rests (· = id) (graph.replaceChild id 0 child) := by
    have hmember (i : Nat) : ((graph.replaceChild id 0 child).node i).member =
        (graph.node i).member :=
      eq_of_replaceChild Node.member (fun _ _ => rfl) (fun _ _ => rfl) i
    refine ⟨⟨Nat.le_of_eq size_replaceChild.symm, fun i _ => kind_replaceChild, fun i hi => ?_,
      fun i hbusy _ => ?_, fun i _ _ => hmember i, fun i hi => ?_⟩,
      fun i => eq_of_replaceChild Node.dynamic (fun _ _ => rfl) (fun _ _ => rfl) i⟩
    · rwa [resolvedType_replaceChild]
    · rw [children_replaceChild, if_neg hbusy]
    · unfold Accessed
      rw [kind_replaceChild, resolvedType_replaceChild, hmember]
      exact hi
  have himports (imports : ImportTable) :
      graph.Rests (· = id) ({ graph with imports := imports } : Graph) :=
    ⟨⟨Nat.le_refl _, fun _ _ => rfl, fun _ h => h, fun _ _ _ => rfl, fun _ _ _ => rfl,
      fun _ h => h⟩, fun _ => rfl⟩
  cases h with
  | addClass imports => exact (himports imports).trans (rests_push rfl nofun)
  | moveToClass | moveToWrapper => exact hreplace
  | addWrapper => exact rests_push rfl fun _ _ => rfl
  | @readWrapper _ inner wrapper span =>
    refine rests_modify (Node.kind_readsWrapper _ _ _) ?_ ?_ ?_ ?_
    · unfold Node.readsWrapper
      split <;> rfl
    · exact fun _ => Node.resolved_readsWrapper wrapper span _
    · intro _ hi
      rw [Node.readsWrapper_eq_self hi]
      exact ⟨rfl, rfl⟩
    · intro h hkind
      unfold Node.readsWrapper
      split
      · exact fun _ => rfl
      · exact h hkind
  | member =>
    exact rests_modify rfl rfl (fun h => h) (fun hbusy => absurd rfl hbusy) fun _ _ _ => rfl

end Graph

namespace GraphM

open BindingPlan.Graph Operation

variable {classes : ClassRegistry} {graph next : Graph} {id bound : Nat}

/-- Resolving sets no class, keeps nodes that have types, and keeps them over as many children as
their kinds need. -/
def Retains (graph next : Graph) : Prop :=
  graph.Shaped → next.Shaped ∧ graph.Rests (fun _ => False) next

instance : IsPreorder Graph Retains where
  refl graph := fun h => ⟨h, .refl graph⟩
  trans _ _ _ h h' := fun hshaped =>
    ⟨(h' (h hshaped).1).1, (h hshaped).2.trans (h' (h hshaped).1).2⟩

theorem retains_resolveWithin (bound id : Nat) :
    Operation.Keeps Retains (resolveWithin classes bound id) := by
  induction bound generalizing id with
  | zero => exact keeps_bind keeps_get fun _ => keeps_throw _
  | succ bound ih =>
    intro graph hshaped
    cases hnone : (graph.node id).resolvedType with
    | some type =>
      rw [run_resolveWithin_of_resolved hnone]
      exact ⟨hshaped, .refl graph⟩
    | none =>
      rw [run_resolveWithin (hshaped id) hnone, run_bind]
      have hbelow := keeps_mapM ih (graph.node id).children graph hshaped
      generalize hfirst : ((graph.node id).children.mapM (resolveWithin classes bound)).run.run
        graph = outcome at hbelow
      obtain ⟨_ | types, below⟩ := outcome
      · exact hbelow
      have htouched : Touched id _ below
          ((settle classes id (graph.node id) types).run.run below).2 := touched_settle _ _ below
      dsimp only
      rw [run_bind]
      generalize hsecond : (settle classes id (graph.node id) types).run.run below = outcome
        at htouched
      obtain ⟨hshaped', hrests⟩ := hbelow
      have hsettled : below.Rests (· = id) outcome.2 := htouched.keeps fun _ _ h => h.rests
      have hall : graph.Rests (· = id) outcome.2 :=
        Rests.trans ⟨hrests.1.of_free, hrests.2⟩ hsettled
      obtain ⟨_ | type, settled⟩ := outcome
      · exact ⟨htouched.shaped hshaped', hall.1.of_unresolved hnone, hall.2⟩
      refine ⟨(htouched.shaped hshaped').modify rfl rfl, ?_⟩
      have hset : settled.Rests (· = id)
          (settled.modify id fun node => { node with resolvedType := some type }) := by
        refine rests_modify rfl rfl (fun _ => rfl) (fun hbusy => absurd rfl hbusy)
          fun _ hkind _ => ?_
        have hid : id < graph.size := by
          by_contra hge
          rw [node_of_size_le (Nat.le_of_not_lt hge)] at hsecond
          cases hsecond
        rw [hall.1.kind id hid] at hkind
        exact member_of_run_settle (Nat.lt_of_lt_of_le hid hrests.1.size_le) hkind hsecond
      exact ⟨(hall.trans hset).1.of_unresolved hnone, (hall.trans hset).2⟩

theorem retains_resolve (id : Nat) : Operation.Keeps Retains (resolve classes id) :=
  keeps_bind keeps_get fun _ => retains_resolveWithin _ id

end GraphM

/-! ## Classes -/

namespace Graph

variable {graph next : Graph} {i id : Nat}

/-- The class of a node by its member and the classes of its children. -/
def classOf (graph : Graph) (i : Nat) : Bool :=
  GraphM.kindIsDynamic (graph.node i).kind (graph.node i).member
    ((graph.node i).children.map graph.isDynamic)

/-- A node is classified after it has a type and after its children are classified, by their
classes; and accesses with types have members. -/
structure Classed (graph : Graph) : Prop where
  resolved : ∀ i, (graph.node i).dynamic.isSome → (graph.node i).resolvedType.isSome
  below : ∀ i, (graph.node i).dynamic.isSome → ∀ child ∈ (graph.node i).children,
    (graph.node child).dynamic.isSome
  eq_classOf : ∀ i dynamic, (graph.node i).dynamic = some dynamic → dynamic = graph.classOf i
  accessed : ∀ i, graph.Accessed i

theorem classed_empty : Classed .empty where
  resolved := fun _ h => nomatch h
  below := fun _ h => nomatch h
  eq_classOf := fun _ _ h => nomatch h
  accessed := fun _ h => nomatch h

theorem lt_size_of_dynamic (h : (graph.node i).dynamic.isSome) : i < graph.size := by
  by_contra hge
  rw [node_of_size_le (Nat.le_of_not_lt hge)] at h
  cases h

theorem Classed.congr (h : graph.Classed) (hnode : ∀ i, next.node i = graph.node i) :
    next.Classed := by
  have hdynamic : next.isDynamic = graph.isDynamic :=
    funext fun i => congrArg Node.isDynamic (hnode i)
  constructor
  · intro i
    rw [hnode]
    exact h.resolved i
  · intro i
    simp only [hnode]
    exact h.below i
  · intro i
    unfold classOf
    rw [hnode, hdynamic]
    exact h.eq_classOf i
  · intro i
    unfold Accessed
    rw [hnode]
    exact h.accessed i

/-- Where no class is set and nodes that have types stay as they are, classes still follow. -/
theorem Classed.mono (h : graph.Classed) (hrests : graph.Rests (fun _ => False) next) :
    next.Classed := by
  obtain ⟨hconserves, hstill⟩ := hrests
  have hchildren {i : Nat} (hi : (graph.node i).dynamic.isSome) :=
    hconserves.children i id (h.resolved i hi)
  have hdynamic : next.isDynamic = graph.isDynamic :=
    funext fun i => congrArg (Option.getD · false) (hstill i)
  constructor
  · intro i hi
    rw [hstill] at hi
    exact hconserves.resolved i (h.resolved i hi)
  · intro i hi child hchild
    rw [hstill] at hi
    rw [hchildren hi] at hchild
    rw [hstill]
    exact h.below i hi child hchild
  · intro i dynamic hi
    rw [hstill] at hi
    have hsome := Option.isSome_of_eq_some hi
    unfold classOf
    rw [hconserves.kind i (lt_size_of_dynamic hsome), hchildren hsome,
      hconserves.member i id (h.resolved i hsome), hdynamic]
    exact h.eq_classOf i dynamic hi
  · exact fun i => hconserves.accessed i (h.accessed i)

/-- The graph in which the node is classified by its children. -/
def withClass (graph : Graph) (id : Nat) : Graph :=
  graph.modify id fun node => { node with dynamic := some (graph.classOf id) }

/-- What hangs on no class is the same behind a classification. -/
theorem eq_of_withClass {β : Type} (part : Node → β)
    (hdynamic : ∀ node dynamic, part { node with dynamic := dynamic } = part node) (i : Nat) :
    part ((graph.withClass id).node i) = part (graph.node i) :=
  eq_of_modify part (hdynamic (graph.node id) (some (graph.classOf id))) i

theorem node_withClass (graph : Graph) (id i : Nat) :
    (graph.withClass id).node i = graph.node i ∨
      i = id ∧ ((graph.withClass id).node i).dynamic = some (graph.classOf i) := by
  unfold withClass
  rw [node_modify]
  split
  · next heq => exact .inr ⟨heq.1, heq.1 ▸ rfl⟩
  · exact .inl rfl

theorem conserves_withClass : graph.Conserves (fun _ => False) (graph.withClass id) where
  size_le := Nat.le_of_eq (size_modify _ _).symm
  kind := fun i _ => eq_of_withClass Node.kind (fun _ _ => rfl) i
  resolved := fun i hi => by rwa [eq_of_withClass Node.resolvedType fun _ _ => rfl]
  children := fun i _ _ => eq_of_withClass Node.children (fun _ _ => rfl) i
  member := fun i _ _ => eq_of_withClass Node.member (fun _ _ => rfl) i
  accessed := fun i hi => by
    unfold Accessed
    rwa [eq_of_withClass Node.kind fun _ _ => rfl, eq_of_withClass Node.resolvedType fun _ _ => rfl,
      eq_of_withClass Node.member fun _ _ => rfl]

theorem Shaped.withClass (h : graph.Shaped) (id : Nat) : (graph.withClass id).Shaped := by
  intro i
  rw [eq_of_withClass Node.kind fun _ _ => rfl, eq_of_withClass Node.children fun _ _ => rfl]
  exact h i

/-- A node that has a type is classified by the classes of its children. -/
theorem Classed.withClass (h : graph.Classed) (hresolved : (graph.node id).resolvedType.isSome)
    (hbelow : ∀ child ∈ (graph.node id).children, (graph.node child).dynamic.isSome) :
    (graph.withClass id).Classed := by
  cases hdynamic : (graph.node id).dynamic with
  | some dynamic =>
    -- it was classified before, and with the same result
    refine h.congr fun i => ?_
    unfold Graph.withClass
    rw [node_modify]
    split
    · next heq =>
      obtain ⟨rfl, -⟩ := heq
      rw [← h.eq_classOf i dynamic hdynamic, ← hdynamic]
    · rfl
  | none =>
    -- it is no child of a node that is classified
    have hclass {child : Nat} (hchild : (graph.node child).dynamic.isSome) :
        (graph.withClass id).node child = graph.node child := by
      unfold Graph.withClass
      rw [node_modify, if_neg]
      rintro ⟨rfl, -⟩
      rw [hdynamic] at hchild
      cases hchild
    have hsame {i : Nat} (hi : ∀ child ∈ (graph.node i).children,
        (graph.node child).dynamic.isSome) :
        (graph.withClass id).classOf i = graph.classOf i := by
      unfold classOf
      rw [eq_of_withClass Node.kind fun _ _ => rfl, eq_of_withClass Node.member fun _ _ => rfl,
        eq_of_withClass Node.children fun _ _ => rfl]
      refine congrArg _ (List.map_congr_left fun child hchild => ?_)
      exact congrArg Node.isDynamic (hclass (hi child hchild))
    constructor
    · intro i hi
      rw [eq_of_withClass Node.resolvedType fun _ _ => rfl]
      obtain hi' | ⟨rfl, -⟩ := graph.node_withClass id i
      · exact h.resolved i (hi' ▸ hi)
      · exact hresolved
    · intro i hi child hchild
      rw [eq_of_withClass Node.children fun _ _ => rfl] at hchild
      have hchild : (graph.node child).dynamic.isSome := by
        obtain hi' | ⟨rfl, -⟩ := graph.node_withClass id i
        · exact h.below i (hi' ▸ hi) child hchild
        · exact hbelow child hchild
      rwa [hclass hchild]
    · intro i dynamic hi
      obtain hi' | ⟨rfl, hi'⟩ := graph.node_withClass id i
      · rw [hi'] at hi
        rw [hsame (h.below i (Option.isSome_of_eq_some hi))]
        exact h.eq_classOf i dynamic hi
      · rw [hsame hbelow]
        exact Option.some.inj (hi.symm.trans hi')
    · exact fun i => conserves_withClass.accessed i (h.accessed i)

end Graph

namespace GraphM

open BindingPlan.Graph Operation

variable {classes : ClassRegistry} {graph next : Graph} {id bound : Nat} {dynamic : Bool}

/-- Nodes keep as many children as their kinds need, classes follow from those of children, and
nodes that have types stay as they are. -/
def Classes (graph next : Graph) : Prop :=
  graph.Shaped → graph.Classed →
    next.Shaped ∧ next.Classed ∧ graph.Conserves (fun _ => False) next

instance : IsPreorder Graph Classes where
  refl graph := fun h h' => ⟨h, h', .refl graph⟩
  trans _ _ _ h h' := fun hshaped hclassed =>
    have ⟨hshaped, hclassed, hconserves⟩ := h hshaped hclassed
    have ⟨hshaped, hclassed, hconserves'⟩ := h' hshaped hclassed
    ⟨hshaped, hclassed, hconserves.trans hconserves'⟩

theorem classes_of_retains (h : Retains graph next) : Classes graph next := by
  intro hshaped hclassed
  obtain ⟨hshaped, hrests⟩ := h hshaped
  exact ⟨hshaped, hclassed.mono hrests, hrests.1⟩

theorem classes_resolve (id : Nat) : Operation.Keeps Classes (resolve classes id) :=
  fun graph => classes_of_retains (retains_resolve id graph)

/-- Behind a walk that succeeds, the node has the class that was given. -/
theorem dynamic_of_run_classifyWithin
    (hrun : (classifyWithin classes bound id).run.run graph = (.ok dynamic, next)) :
    (next.node id).dynamic = some dynamic := by
  cases bound with
  | zero => cases hrun
  | succ bound =>
    unfold classifyWithin at hrun
    rw [run_bind, run_get] at hrun
    dsimp only at hrun
    split at hrun
    · next hdynamic =>
      cases hrun
      exact hdynamic
    · obtain ⟨_, reached, hresolve, hrun⟩ := exists_of_run_bind hrun
      have hid : id < graph.size := by
        by_contra hge
        rw [run_resolve_of_size_le (Nat.le_of_not_lt hge)] at hresolve
        cases hresolve
      rw [run_bind, run_get] at hrun
      dsimp only at hrun
      obtain ⟨_, below, hchildren, hrun⟩ := exists_of_run_bind hrun
      have hsize := ((admits_settles classes).resolve id).of_run hresolve
      have hsize' := (keeps_mapM (fun child => (admits_settles classes).classifyWithin bound child)
        _).of_run hchildren
      cases hrun
      exact congrArg Node.dynamic (node_modify_self
        (Nat.lt_of_lt_of_le hid (Nat.le_trans hsize.size_le hsize'.size_le)))

/-- Nodes that are classified one after the other have the classes that were given. -/
theorem dynamic_of_run_mapM {ids : List Nat} {classes' : List Bool}
    (hrun : (ids.mapM (classifyWithin classes bound)).run.run graph = (.ok classes', next)) :
    classes' = ids.map next.isDynamic ∧ ∀ id ∈ ids, (next.node id).dynamic.isSome := by
  induction ids generalizing graph classes' with
  | nil =>
    rw [List.mapM_nil] at hrun
    cases hrun
    exact ⟨rfl, nofun⟩
  | cons id ids ih =>
    rw [List.mapM_cons] at hrun
    obtain ⟨first, reached, hfirst, hrun⟩ := exists_of_run_bind hrun
    obtain ⟨rest, last, hrest, hrun⟩ := exists_of_run_bind hrun
    cases hrun
    obtain ⟨rfl, hall⟩ := ih hrest
    have hremembers := (keeps_mapM (fun child =>
      (allows_remembers.admits classes).classifyWithin bound child) _).of_run hrest
    have hid := hremembers.dynamic id first (dynamic_of_run_classifyWithin hfirst)
    refine ⟨?_, List.forall_mem_cons.mpr ⟨Option.isSome_of_eq_some hid, hall⟩⟩
    rw [List.map_cons, show next.isDynamic id = first from congrArg (Option.getD · false) hid]

theorem classes_classifyWithin (bound id : Nat) :
    Operation.Keeps Classes (classifyWithin classes bound id) := by
  induction bound generalizing id with
  | zero => exact keeps_bind keeps_get fun _ => keeps_throw _
  | succ bound ih =>
    intro graph
    unfold classifyWithin
    rw [run_bind, run_get]
    dsimp only
    split
    · exact refl_of Classes graph
    rw [run_bind]
    have hresolve : Classes graph ((resolve classes id).run.run graph).2 :=
      classes_resolve id graph
    generalize hfirst : (resolve classes id).run.run graph = outcome at hresolve
    obtain ⟨_ | type, resolved⟩ := outcome
    · exact hresolve
    dsimp only
    rw [run_bind, run_get]
    dsimp only
    rw [run_bind]
    have hbelow := keeps_mapM ih (resolved.node id).children resolved
    generalize hsecond : ((resolved.node id).children.mapM
      (classifyWithin classes bound)).run.run resolved = outcome at hbelow
    have hboth := trans_of Classes hresolve hbelow
    obtain ⟨_ | found, below⟩ := outcome
    · exact hboth
    intro hshaped hclassed
    obtain ⟨hshaped', hclassed', hconserves'⟩ := hresolve hshaped hclassed
    obtain ⟨hshaped'', hclassed'', hconserves''⟩ := hbelow hshaped' hclassed'
    obtain ⟨rfl, hdynamic⟩ := dynamic_of_run_mapM hsecond
    have hid : id < graph.size := by
      by_contra hge
      rw [run_resolve_of_size_le (Nat.le_of_not_lt hge)] at hfirst
      cases hfirst
    have htype := Option.isSome_of_eq_some (resolved_of_run_resolve hid hfirst)
    -- the children and the member that were read are still those of the node
    have hchildren := hconserves''.children id (fun h => h) htype
    have hclass : kindIsDynamic (resolved.node id).kind (resolved.node id).member
        ((resolved.node id).children.map below.isDynamic) = below.classOf id := by
      unfold classOf
      rw [hconserves''.kind id (Nat.lt_of_lt_of_le hid hconserves'.size_le),
        hconserves''.member id (fun h => h) htype, hchildren]
    have hrun : (do
        modifyNode id fun node => { node with dynamic := some (below.classOf id) }
        return below.classOf id : GraphM Bool).run.run below =
          (.ok (below.classOf id), below.withClass id) := rfl
    dsimp only
    rw [hclass, hrun]
    exact ⟨hshaped''.withClass id,
      hclassed''.withClass (hconserves''.resolved id htype) (hchildren ▸ hdynamic),
      (hconserves'.trans hconserves'').trans conserves_withClass⟩

theorem classes_classify (id : Nat) : Operation.Keeps Classes (classify classes id) :=
  keeps_bind (classes_resolve id) fun _ => keeps_bind keeps_get fun _ => classes_classifyWithin _ id

theorem classes_classifyFrom (count id : Nat) :
    Operation.Keeps Classes (classifyFrom classes count id) := by
  induction count generalizing id with
  | zero => exact keeps_pure _
  | succ count ih =>
    refine keeps_bind keeps_get fun graph => ?_
    split
    · exact keeps_bind (classes_classify id) fun _ => ih (id + 1)
    · exact keeps_pure _

/-- Freezing a graph, or noting its imports, changes no node. -/
theorem classes_of_nodes (h : next.nodes = graph.nodes) : Classes graph next := by
  have hnode (i : Nat) : next.node i = graph.node i := by
    unfold Graph.node
    rw [h]
  intro hshaped hclassed
  refine ⟨fun i => (hnode i).symm ▸ hshaped i, hclassed.congr hnode, ?_⟩
  refine ⟨Nat.le_of_eq (congrArg Array.size h).symm, fun i _ => congrArg Node.kind (hnode i),
    fun i hi => (hnode i).symm ▸ hi, fun i _ _ => congrArg Node.children (hnode i),
    fun i _ _ => congrArg Node.member (hnode i), fun i hi => ?_⟩
  unfold Accessed
  rw [hnode]
  exact hi

theorem classes_sealGraph : Operation.Keeps Classes (sealGraph classes) := by
  refine keeps_bind keeps_get fun graph => ?_
  dsimp only
  split
  · exact fun graph => refl_of Classes graph
  · refine keeps_bind (keeps_bind keeps_get fun _ => keeps_bind (classes_classifyFrom _ 0) fun _ =>
      keeps_bind keeps_get fun _ => classes_classifyFrom _ _) fun _ graph => ?_
    rw [run_bind, run_get]
    dsimp only
    split
    · exact refl_of Classes graph
    · exact classes_of_nodes rfl

end GraphM
end BindingPlan
