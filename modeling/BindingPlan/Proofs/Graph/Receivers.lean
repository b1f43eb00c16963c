import BindingPlan.Proofs.Graph.Spared
import BindingPlan.Proofs.Key.Kinds

/-!
# Receivers of static members

An access whose member is static has the class of its receiver as its first child, and no other
access has a class there. This is said of accesses with types; a graph is in form if they all are
like this, and if keys tell its classes, and its nodes that read wrappers, from other nodes.

Main results:

* `Graph.Anchors`: an access whose first child suits its member.
* `Graph.WellAnchored`: all accesses with types are of this form.
* `Graph.WellAnchored.push`, `Graph.WellAnchored.modify`, `Graph.WellAnchored.replaceChild`: what to
  show of one change.
-/

namespace BindingPlan

/-- The key of the node tells its kind as far as look-ups rely on it, its type has a known name, and
if it reads a wrapper then it has a type. -/
structure Node.Told (known : String → Prop) (node : Node) : Prop where
  keyed : node.kind.Keyed known node.key.toList
  typeName : ∀ type, node.resolvedType = some type → known type.name
  resolved : ∀ name, node.kind = .field name true → node.resolvedType.isSome

theorem Node.Told.congr {known : String → Prop} {node next : Node} (h : node.Told known)
    (hkind : next.kind = node.kind) (hkey : next.key = node.key)
    (htype : ∀ type, next.resolvedType = some type →
      node.resolvedType = some type ∨ known type.name)
    (hresolved : node.resolvedType.isSome → next.resolvedType.isSome) : next.Told known where
  keyed := by
    rw [hkind, hkey]
    exact h.keyed
  typeName := fun type hnext => (htype type hnext).elim (h.typeName type) id
  resolved := fun name hname => hresolved (h.resolved name (hkind.symm.trans hname))

theorem Node.told_default {known : String → Prop} : (default : Node).Told known where
  keyed := by
    refine ⟨nofun, fun q _ hkey => ?_, fun receiver name _ _ hkey => ?_, nofun⟩
    · cases hkey
    · exact absurd hkey.symm (by simp [default, Node.new])
  typeName := nofun
  resolved := nofun

namespace Graph

open GraphM

variable {known : String → Prop} {busy : Nat → Prop} {graph next last : Graph} {node : Node}
  {i id child receiver : Nat} {member : Member} {q : String}

/-! ## Anchors -/

/-- The class of a receiver: the one that it names, or that of its value. -/
def className? (graph : Graph) (receiver : Nat) : Option String :=
  match (graph.node receiver).kind with
  | .classRef _ qualified => some qualified
  | _ => (graph.node receiver).resolvedType.map ClassType.name

/-- The access was written over the receiver: they stand together in its key. -/
def WrittenOver (graph : Graph) (i receiver : Nat) : Prop :=
  receiver < graph.size ∧ graph.keyOf i = (graph.node i).kind.key
    (graph.keyOf receiver :: ((graph.node i).children.drop 1).map graph.keyOf)

instance : Decidable (graph.WrittenOver i receiver) :=
  inferInstanceAs (Decidable (_ ∧ _))

/-- The first child of an access is a class exactly if the member is static, and then it is the
class of the receiver that the access was written over. -/
structure Suits (graph : Graph) (child receiver : Nat) (member : Member) : Prop where
  isClassRef : (graph.node child).kind.isClassRef = member.isStatic
  key : member.isStatic = true →
    ∃ q, graph.className? receiver = some q ∧ graph.keyOf child = Kind.classKey q

/-- The first child of the access suits its member. -/
structure Anchors (graph : Graph) (i child receiver : Nat) (member : Member) : Prop where
  hasChild : (graph.node i).children[0]? = some child
  hasMember : (graph.node i).member = some member
  written : graph.WrittenOver i receiver
  suits : graph.Suits child receiver member

def Anchored (graph : Graph) (i : Nat) : Prop :=
  ∃ child receiver member, graph.Anchors i child receiver member

/-- Nodes keep their kinds and keys, and types that they have. -/
structure Retells (graph next : Graph) : Prop where
  size_le : graph.size ≤ next.size
  kind : ∀ i < graph.size, (next.node i).kind = (graph.node i).kind
  keyOf : ∀ i < graph.size, next.keyOf i = graph.keyOf i
  resolvedType : ∀ i type, (graph.node i).resolvedType = some type →
    (next.node i).resolvedType = some type

theorem Retells.refl (graph : Graph) : graph.Retells graph :=
  ⟨Nat.le_refl _, fun _ _ => rfl, fun _ _ => rfl, fun _ _ h => h⟩

theorem Retells.trans (h : graph.Retells next) (h' : next.Retells last) : graph.Retells last where
  size_le := Nat.le_trans h.size_le h'.size_le
  kind := fun i hi => (h'.kind i (Nat.lt_of_lt_of_le hi h.size_le)).trans (h.kind i hi)
  keyOf := fun i hi => (h'.keyOf i (Nat.lt_of_lt_of_le hi h.size_le)).trans (h.keyOf i hi)
  resolvedType := fun i type hi => h'.resolvedType i type (h.resolvedType i type hi)

theorem retells_push : graph.Retells (graph.push node) where
  size_le := by
    rw [size_push]
    exact Nat.le_succ _
  kind := fun _ => kind_push
  keyOf := fun _ => eq_of_push Node.key fun _ _ => rfl
  resolvedType := by
    intro i type htype
    rwa [resolvedType_push]
    by_contra hge
    rw [node_of_size_le (Nat.le_of_not_lt hge)] at htype
    cases htype

theorem retells_imports (imports : ImportTable) :
    graph.Retells { graph with imports := imports } :=
  ⟨Nat.le_refl _, fun _ _ => rfl, fun _ _ => rfl, fun _ _ h => h⟩

theorem retells_modify {change : Node → Node}
    (hkind : (change (graph.node id)).kind = (graph.node id).kind)
    (htype : ∀ type, (graph.node id).resolvedType = some type →
      (change (graph.node id)).resolvedType = some type) :
    graph.Retells (graph.modify id change) where
  size_le := Nat.le_of_eq (size_modify _ _).symm
  kind := fun i _ => eq_of_modify Node.kind hkind i
  keyOf := fun i _ => keyOf_modify _ _ i
  resolvedType := by
    intro i type hi
    rw [node_modify]
    split
    · next heq =>
      obtain ⟨rfl, -⟩ := heq
      exact htype type hi
    · exact hi

theorem retells_replaceChild (parent position child : Nat) :
    graph.Retells (graph.replaceChild parent position child) where
  size_le := Nat.le_of_eq size_replaceChild.symm
  kind := fun _ _ => kind_replaceChild
  keyOf := fun _ _ => keyOf_replaceChild
  resolvedType := fun _ _ htype => by rwa [resolvedType_replaceChild]

theorem className?_of_classRef {shortName : String}
    (h : (graph.node receiver).kind = .classRef shortName q) :
    graph.className? receiver = some q := by
  unfold className?
  rw [h]

theorem className?_of_resolved {type : ClassType}
    (hclass : (graph.node receiver).kind.isClassRef = false)
    (htype : (graph.node receiver).resolvedType = some type) :
    graph.className? receiver = some type.name := by
  unfold className?
  split
  · next hkind =>
    rw [hkind] at hclass
    cases hclass
  · rw [htype]
    rfl

theorem Retells.className? (h : graph.Retells next) (hlt : receiver < graph.size)
    (hclass : graph.className? receiver = some q) : next.className? receiver = some q := by
  unfold Graph.className? at hclass ⊢
  rw [h.kind receiver hlt]
  split at hclass
  · exact hclass
  · obtain ⟨type, htype, hname⟩ := Option.map_eq_some_iff.mp hclass
    rw [h.resolvedType receiver type htype]
    exact congrArg some hname

theorem WrittenOver.mono (h : graph.WrittenOver i receiver) (hretells : graph.Retells next)
    (hi : i < graph.size) (hlt : ∀ child ∈ (graph.node i).children, child < graph.size)
    (hargs : (next.node i).children.drop 1 = (graph.node i).children.drop 1) :
    next.WrittenOver i receiver := by
  refine ⟨Nat.lt_of_lt_of_le h.1 hretells.size_le, ?_⟩
  rw [hretells.keyOf i hi, hretells.kind i hi, hretells.keyOf receiver h.1, hargs, h.2]
  exact congrArg (fun args => (graph.node i).kind.key (graph.keyOf receiver :: args))
    (List.map_congr_left fun child hchild =>
      (hretells.keyOf child (hlt child (List.mem_of_mem_drop hchild))).symm)

/-- An access was written over one receiver. -/
theorem WrittenOver.unique {other : Nat} (h : graph.WrittenOver i receiver)
    (h' : graph.WrittenOver i other) (hkind : (graph.node i).kind.hasReceiver = true)
    (hlinked : graph.Linked) : receiver = other :=
  hlinked.eq_of_keyOf h.1 h'.1 (Kind.receiver_of_key hkind (h.2.symm.trans h'.2))

theorem Suits.mono (h : graph.Suits child receiver member) (hretells : graph.Retells next)
    (hchild : child < graph.size) (hreceiver : receiver < graph.size) :
    next.Suits child receiver member where
  isClassRef := by
    rw [hretells.kind child hchild]
    exact h.isClassRef
  key := by
    intro hstatic
    obtain ⟨q, hclass, hkey⟩ := h.key hstatic
    exact ⟨q, hretells.className? hreceiver hclass, (hretells.keyOf child hchild).trans hkey⟩

theorem Anchors.mono (h : graph.Anchors i child receiver member) (hretells : graph.Retells next)
    (hlt : ∀ child ∈ (graph.node i).children, child < graph.size)
    (hchildren : (next.node i).children = (graph.node i).children)
    (hmember : (next.node i).member = (graph.node i).member) :
    next.Anchors i child receiver member where
  hasChild := hchildren ▸ h.hasChild
  hasMember := hmember ▸ h.hasMember
  written := h.written.mono hretells (lt_size_of_children (List.mem_of_getElem? h.hasChild)) hlt
    (by rw [hchildren])
  suits := h.suits.mono hretells (hlt child (List.mem_of_getElem? h.hasChild)) h.written.1

/-! ## Graphs with anchors -/

/-- Nodes without types, unless they are busy, are over nodes with keys of expressions, and accesses
with types are anchored. -/
structure WellAnchored (known : String → Prop) (busy : Nat → Prop) (graph : Graph) : Prop where
  told : ∀ i, (graph.node i).Told known
  children_lt : ∀ i, ∀ child ∈ (graph.node i).children, child < graph.size
  spelled : ∀ i, ¬ busy i → (graph.node i).resolvedType = none →
    ∀ child ∈ (graph.node i).children, Spelled known (graph.keyOf child).toList
  anchored : ∀ i, (graph.node i).kind.hasReceiver = true → (graph.node i).resolvedType.isSome →
    graph.Anchored i

theorem wellAnchored_empty : WellAnchored known busy .empty where
  told := fun _ => Node.told_default
  children_lt := fun _ _ h => nomatch h
  spelled := fun _ _ _ _ h => nomatch h
  anchored := fun _ h => nomatch h

theorem WellAnchored.push (h : WellAnchored known busy graph) (htold : node.Told known)
    (hlt : ∀ child ∈ node.children, child < graph.size)
    (hspelled : node.resolvedType = none →
      ∀ child ∈ node.children, Spelled known (graph.keyOf child).toList)
    (hanchored : node.kind.hasReceiver = true → node.resolvedType.isSome →
      (graph.push node).Anchored graph.size) : WellAnchored known busy (graph.push node) := by
  have hkeyOf {child : Nat} (hchild : child < graph.size) :
      (graph.push node).keyOf child = graph.keyOf child :=
    retells_push.keyOf child hchild
  refine ⟨fun i => ?_, fun i child hchild => ?_, fun i hbusy hnone child hchild => ?_,
    fun i hkind hresolved => ?_⟩
  · exact forall_push Node.unlinked (p := fun node => node.Told known) (fun _ _ => rfl)
      (htold.congr rfl rfl (fun _ => .inl) id)
      (fun i => (h.told i).congr rfl rfl (fun _ => .inl) id) i |>.congr rfl rfl (fun _ => .inl) id
  · rw [size_push]
    refine Nat.lt_succ_of_lt ?_
    exact forall_push Node.children (p := fun children => ∀ child ∈ children, child < graph.size)
      (fun _ _ => rfl) hlt h.children_lt i child hchild
  · rcases Nat.lt_trichotomy i graph.size with hi | rfl | hi
    · rw [resolvedType_push hi] at hnone
      rw [children_push hi] at hchild
      rw [hkeyOf (h.children_lt i child hchild)]
      exact h.spelled i hbusy hnone child hchild
    · rw [node_push_self] at hnone hchild
      rw [hkeyOf (hlt child hchild)]
      exact hspelled hnone child hchild
    · rw [node_push_of_lt hi, node_of_size_le (Nat.le_of_lt hi)] at hchild
      cases hchild
  · rcases Nat.lt_trichotomy i graph.size with hi | rfl | hi
    · rw [kind_push hi] at hkind
      rw [resolvedType_push hi] at hresolved
      obtain ⟨child, receiver, member, hanchors⟩ := h.anchored i hkind hresolved
      exact ⟨child, receiver, member, hanchors.mono retells_push (h.children_lt i)
        (children_push hi) (eq_of_push Node.member (fun _ _ => rfl) hi)⟩
    · rw [node_push_self] at hkind hresolved
      exact hanchored hkind hresolved
    · rw [node_push_of_lt hi, node_of_size_le (Nat.le_of_lt hi)] at hkind
      cases hkind

/-- One node changes that keeps its kind, its key and its children, and it keeps its member as well
or is anchored if it has to be. -/
theorem WellAnchored.modify {change : Node → Node} (h : WellAnchored known busy graph)
    (hkind : (change (graph.node id)).kind = (graph.node id).kind)
    (hchildren : (change (graph.node id)).children = (graph.node id).children)
    (htype : ∀ type, (graph.node id).resolvedType = some type →
      (change (graph.node id)).resolvedType = some type)
    (hknown : ∀ type, (change (graph.node id)).resolvedType = some type →
      (graph.node id).resolvedType = some type ∨ known type.name)
    (hanchored : id < graph.size → (graph.node id).kind.hasReceiver = true →
      (change (graph.node id)).resolvedType.isSome →
      (graph.node id).resolvedType.isSome ∧
        (change (graph.node id)).member = (graph.node id).member ∨
      (graph.modify id change).Anchored id) :
    WellAnchored known busy (graph.modify id change) := by
  have hretells : graph.Retells (graph.modify id change) := retells_modify hkind htype
  have hlinks := eq_of_modify Node.children hchildren
  have hresolved (hsome : (graph.node id).resolvedType.isSome) :
      (change (graph.node id)).resolvedType.isSome := by
    obtain ⟨type, hsome⟩ := Option.isSome_iff_exists.mp hsome
    exact Option.isSome_of_eq_some (htype type hsome)
  refine ⟨fun i => ?_, fun i child hchild => ?_, fun i hbusy hnone child hchild => ?_,
    fun i hreceiver hsome => ?_⟩
  · rw [node_modify]
    split
    · next heq =>
      obtain ⟨rfl, -⟩ := heq
      exact (h.told i).congr hkind rfl hknown hresolved
    · exact h.told i
  · rw [hlinks] at hchild
    rw [size_modify]
    exact h.children_lt i child hchild
  · rw [hlinks] at hchild
    rw [hretells.keyOf child (h.children_lt i child hchild)]
    refine h.spelled i hbusy ?_ child hchild
    by_contra hne
    obtain ⟨type, hne⟩ := Option.ne_none_iff_exists'.mp hne
    cases (hretells.resolvedType i type hne).symm.trans hnone
  · rw [eq_of_modify Node.kind hkind] at hreceiver
    have hkeeps (hsome : (graph.node i).resolvedType.isSome)
        (hmember : ((graph.modify id change).node i).member = (graph.node i).member) :
        (graph.modify id change).Anchored i := by
      obtain ⟨child, receiver, member, hanchors⟩ := h.anchored i hreceiver hsome
      exact ⟨child, receiver, member, hanchors.mono hretells (h.children_lt i) (hlinks i) hmember⟩
    rw [node_modify] at hsome hkeeps
    split at hsome
    · next heq =>
      rw [if_pos heq] at hkeeps
      obtain ⟨rfl, hi⟩ := heq
      exact (hanchored hi hreceiver hsome).elim (fun h => hkeeps h.1 h.2) fun h => h
    · next hne =>
      rw [if_neg hne] at hkeeps
      exact hkeeps hsome rfl

theorem WellAnchored.of_nodes_eq (h : WellAnchored known busy graph)
    (hnodes : next.nodes = graph.nodes) : WellAnchored known busy next := by
  have hnode : next.node = graph.node := by
    funext i
    unfold node
    rw [hnodes]
  have hkeyOf (i : Nat) : next.keyOf i = graph.keyOf i := congrArg Node.key (congrFun hnode i)
  have hsize : next.size = graph.size := congrArg Array.size hnodes
  have hretells : graph.Retells next :=
    ⟨Nat.le_of_eq hsize.symm, fun _ _ => by rw [hnode], fun i _ => hkeyOf i,
      fun _ _ h => by rwa [hnode]⟩
  refine ⟨?_, ?_, ?_, ?_⟩
  · rw [hnode]
    exact h.told
  · rw [hnode, hsize]
    exact h.children_lt
  · simp only [hnode, hkeyOf]
    exact h.spelled
  · intro i hkind hresolved
    rw [hnode] at hkind hresolved
    obtain ⟨child, receiver, member, hanchors⟩ := h.anchored i hkind hresolved
    exact ⟨child, receiver, member, hanchors.mono hretells (h.children_lt i) (by rw [hnode])
      (by rw [hnode])⟩

/-- A node without a type gets another first child. -/
theorem WellAnchored.replaceChild (h : WellAnchored known (· = id) graph)
    (hnone : (graph.node id).resolvedType = none) (hchild : child < graph.size) :
    WellAnchored known (· = id) (graph.replaceChild id 0 child) where
  told := fun i => (h.told i).congr kind_replaceChild keyOf_replaceChild
    (fun _ htype => .inl (resolvedType_replaceChild.symm.trans htype))
    fun hsome => by rwa [resolvedType_replaceChild]
  children_lt := by
    intro i other hother
    rw [size_replaceChild]
    rcases hasChild_replaceChild hother with hold | ⟨-, rfl⟩
    · exact h.children_lt i other hold
    · exact hchild
  spelled := by
    intro i hbusy hwaits other hother
    rw [resolvedType_replaceChild] at hwaits
    rw [children_replaceChild, if_neg hbusy] at hother
    rw [keyOf_replaceChild]
    exact h.spelled i hbusy hwaits other hother
  anchored := by
    intro i hkind hsome
    rw [kind_replaceChild] at hkind
    rw [resolvedType_replaceChild] at hsome
    have hi : i ≠ id := by
      rintro rfl
      rw [hnone] at hsome
      cases hsome
    obtain ⟨first, receiver, member, hanchors⟩ := h.anchored i hkind hsome
    exact ⟨first, receiver, member, hanchors.mono (retells_replaceChild id 0 child)
      (h.children_lt i) (by rw [children_replaceChild, if_neg hi])
      (eq_of_replaceChild Node.member (fun _ _ => rfl) (fun _ _ => rfl) i)⟩

/-- What is busy has its type by now. -/
theorem WellAnchored.free (h : WellAnchored known (· = id) graph)
    (hresolved : (graph.node id).resolvedType.isSome) :
    WellAnchored known (fun _ => False) graph where
  told := h.told
  children_lt := h.children_lt
  spelled := by
    refine fun i _ hnone => h.spelled i ?_ hnone
    rintro rfl
    rw [hnone] at hresolved
    cases hresolved
  anchored := h.anchored

theorem WellAnchored.of_free (h : WellAnchored known (fun _ => False) graph) :
    WellAnchored known busy graph :=
  ⟨h.told, h.children_lt, fun i _ => h.spelled i id, h.anchored⟩

end Graph
end BindingPlan
