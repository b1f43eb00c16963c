import BindingPlan.Proofs.Graph.Formed
import BindingPlan.Proofs.Graph.Meaning
import BindingPlan.Proofs.Import.Names

/-!
# Graphs that agree with a dictionary

A dictionary says what each key means. A graph agrees with it if every node means what its key
means: a node that is resolved has the type of that meaning, and the meaning of any other follows
from those of its children. Then it does not matter which bindings the nodes came from, nor which of
them failed.

While the links of a node move, it agrees with the dictionary again only when its type is set.

Main results:

* `Graph.Judged`: graphs that agree with a dictionary.
* `Graph.Judged.step`: what to show of one step.
-/

namespace BindingPlan

/-- The type of a node over the meanings of its children. -/
def Node.type? (classes : ClassRegistry) (parts : List (Option Meaning)) (node : Node) :
    Option ClassType :=
  match node.kind with
  | .identifier _ => node.declaredType.bind fun name => (classes.findClass name).toOption
  | kind => kind.type? classes parts

/-- What the type of a node hangs on. -/
def Node.core (node : Node) : Kind × String × List Nat × Option String × Option ClassType :=
  (node.kind, node.key, node.children, node.declaredType, node.resolvedType)

/-- The meanings of keys. Classes have known names, none of which goes on behind another one, and
the observable wrappers among them have values. -/
structure Dictionary (classes : ClassRegistry) where
  known : String → Prop
  meaning? : String → Option Meaning
  apart : Apart known
  findClass : ∀ name type, classes.findClass name = .ok type → known type.name
  ofClass : ∀ name type, classes.findClass name = .ok type →
    meaning? (Kind.classKey type.name) = some ⟨type, true, false⟩
  finds : ∀ key meaning, meaning? key = some meaning →
    classes.findClass meaning.type.name = .ok meaning.type
  wrapper : ∀ type, classes.findClass type.name = .ok type → type.observableField = true →
    ∃ value, classes.findMember type "get" false = .ok value

namespace Graph

/-- The node did not come about by the split of another one. -/
def Plain (graph : Graph) (i : Nat) : Prop :=
  ∀ name, (graph.node i).kind ≠ .field name true

variable {classes : ClassRegistry} {dict : Dictionary classes} {table : ImportTable}
  {busy busy' : Nat → Prop} {graph next : Graph} {node other : Node} {i id : Nat}

/-- The node has a meaning, or it came about by a split. -/
def Means (dict : Dictionary classes) (graph : Graph) (i : Nat) : Prop :=
  graph.Plain i → ∃ meaning, dict.meaning? (graph.keyOf i) = some meaning

def meanings (dict : Dictionary classes) (graph : Graph) (ids : List Nat) : List (Option Meaning) :=
  ids.map fun id => dict.meaning? (graph.keyOf id)

/-- A new node changes nothing but nodes. -/
theorem imports_push : (graph.push node).imports = graph.imports ∧
    (graph.push node).sealed? = graph.sealed? := by
  have hlinked (children : List Nat) (graph : Graph) (parent : Nat) :
      let linked := children.foldl (fun graph child => graph.modify child (.addParent parent)) graph
      linked.imports = graph.imports ∧ linked.sealed? = graph.sealed? := by
    induction children generalizing graph with
    | nil => exact ⟨rfl, rfl⟩
    | cons child children ih => exact ih (graph.modify child (.addParent parent))
  exact hlinked node.children graph graph.size

/-- A node of the graph agrees with the dictionary; of a busy one it is not yet said that its
meaning follows from those of its children. -/
structure Agrees (dict : Dictionary classes) (busy : Prop) (graph : Graph) (node : Node) :
    Prop where
  wrapper : ∀ name, node.kind = .field name true → IsName name.toList ∧
    node.resolvedType.isSome ∧ ∃ receiver, Wrapped dict.known receiver ∧
      node.key.toList = receiver ++ '.' :: '.' :: name.toList
  spelled : (∀ name, node.kind ≠ .field name true) → Spelled dict.known node.key.toList
  shape : (∀ name, node.kind ≠ .field name true) →
    node.kind.isLeaf = true ∧ node.children = [] ∨ node.kind.Composes node.children.length
  kind : ∀ meaning, dict.meaning? node.key = some meaning →
    (∀ name, node.kind ≠ .field name true) →
    meaning.isClass = node.kind.isClassRef ∧ meaning.isNull = node.kind.isNull
  resolved : ∀ type, node.resolvedType = some type → (∀ name, node.kind ≠ .field name true) →
    ∃ meaning, dict.meaning? node.key = some meaning ∧ meaning.type = type
  unresolved : node.resolvedType = none → ¬ busy → (∀ child ∈ node.children, graph.Plain child) ∧
    dict.meaning? node.key =
      (node.type? classes (graph.meanings dict node.children)).map node.kind.meaning
  means : node.resolvedType.isSome → ∀ child ∈ node.children, graph.Means dict child

/-- A graph agrees with a dictionary. It is open, and its imports extend a table on demand. -/
structure Judged (dict : Dictionary classes) (table : ImportTable) (busy : Nat → Prop)
    (graph : Graph) : Prop where
  linked : graph.Linked
  isOpen : graph.isSealed = false
  imports : table.Extends classes graph.imports
  agrees : ∀ i < graph.size, Agrees dict (busy i) graph (graph.node i)

/-- Some operations may lead from the one graph to the other. -/
abbrev Grows (graph next : Graph) : Prop :=
  (Rules.any fun _ => True).Steps graph next

theorem Plain.grows (h : graph.Plain i) (hi : i < graph.size) (hgrows : graph.Grows next) :
    next.Plain i := by
  unfold Plain
  rw [Rules.Steps.kind hgrows hi]
  exact h

theorem Means.grows (h : graph.Means dict i) (hi : i < graph.size) (hgrows : graph.Grows next) :
    next.Means dict i := by
  unfold Means Plain at h ⊢
  rwa [Rules.Steps.kind hgrows hi, Rules.Steps.keyOf hgrows hi]

/-! ## Nodes that agree -/

theorem Agrees.of_core {p : Prop} (h : Agrees dict p graph node) (hcore : other.core = node.core) :
    Agrees dict p graph other := by
  have hkind : other.kind = node.kind := congrArg Prod.fst hcore
  have hkey : other.key = node.key := congrArg (·.2.1) hcore
  have hchildren : other.children = node.children := congrArg (·.2.2.1) hcore
  have hdeclared : other.declaredType = node.declaredType := congrArg (·.2.2.2.1) hcore
  have hresolved : other.resolvedType = node.resolvedType := congrArg (·.2.2.2.2) hcore
  have htype (parts : List (Option Meaning)) :
      other.type? classes parts = node.type? classes parts := by
    unfold Node.type?
    rw [hkind, hdeclared]
  constructor
  · rw [hkind, hresolved, hkey]
    exact h.wrapper
  · rw [hkind, hkey]
    exact h.spelled
  · rw [hkind, hchildren]
    exact h.shape
  · rw [hkind, hkey]
    exact h.kind
  · rw [hkind, hkey, hresolved]
    exact h.resolved
  · rw [hkind, hkey, hresolved, hchildren, htype]
    exact h.unresolved
  · rw [hresolved, hchildren]
    exact h.means

theorem Agrees.mono {p q : Prop} (h : Agrees dict p graph node) (hbusy : p → q)
    (hkey : ∀ child ∈ node.children, next.keyOf child = graph.keyOf child)
    (hkind : ∀ child ∈ node.children, (next.node child).kind = (graph.node child).kind) :
    Agrees dict q next node where
  wrapper := h.wrapper
  spelled := h.spelled
  shape := h.shape
  kind := h.kind
  resolved := h.resolved
  unresolved := by
    intro hresolved hnot
    obtain ⟨hplain, hmeaning⟩ := h.unresolved hresolved fun hp => hnot (hbusy hp)
    refine ⟨fun child hchild => ?_, ?_⟩
    · unfold Plain
      rw [hkind child hchild]
      exact hplain child hchild
    · have hsame : next.meanings dict node.children = graph.meanings dict node.children :=
        List.map_congr_left fun child hchild => congrArg dict.meaning? (hkey child hchild)
      rw [hsame]
      exact hmeaning
  means := by
    intro hresolved child hchild
    have h := h.means hresolved child hchild
    unfold Means Plain at h ⊢
    rwa [hkind child hchild, hkey child hchild]

/-- A node whose type is set agrees. -/
theorem Agrees.resolve {p q : Prop} (h : Agrees dict p graph node) {meaning : Meaning}
    (hmeaning : dict.meaning? node.key = some meaning)
    (hmeans : ∀ child ∈ node.children, graph.Means dict child) :
    Agrees dict q graph { node with resolvedType := some meaning.type } where
  wrapper := fun name hkind => ⟨(h.wrapper name hkind).1, rfl, (h.wrapper name hkind).2.2⟩
  spelled := h.spelled
  shape := h.shape
  kind := h.kind
  resolved := fun _ htype _ => ⟨meaning, hmeaning, Option.some.inj htype⟩
  unresolved := nofun
  means := fun _ => hmeans

/-- Only variables have a type of their own, which is to be that of the meaning. -/
theorem Agrees.declare {p : Prop} (h : Agrees dict p graph node) {declared : Option String}
    (hdeclared : ∀ name, node.kind = .identifier name → dict.meaning? node.key =
      (declared.bind fun name => (classes.findClass name).toOption).map node.kind.meaning) :
    Agrees dict p graph { node with declaredType := declared } where
  wrapper := h.wrapper
  spelled := h.spelled
  shape := h.shape
  kind := h.kind
  resolved := h.resolved
  unresolved := by
    intro hresolved hbusy
    obtain ⟨hplain, hmeaning⟩ := h.unresolved hresolved hbusy
    refine ⟨hplain, ?_⟩
    unfold Node.type? at hmeaning ⊢
    dsimp only
    split
    · next name hkind => exact hdeclared name hkind
    · next hkind =>
      split at hmeaning
      · next name hname => exact absurd hname (hkind name)
      · exact hmeaning
  means := h.means

theorem Agrees.wrapped {p : Prop} (h : Agrees dict p graph node) :
    Wrapped dict.known node.key.toList := by
  by_cases hplain : ∀ name, node.kind ≠ .field name true
  · exact .spelled (h.spelled hplain)
  · obtain ⟨name, hkind⟩ := not_forall_not.mp hplain
    obtain ⟨hname, -, receiver, hreceiver, hkey⟩ := h.wrapper name hkind
    exact hkey ▸ hreceiver.wrapper hname

/-- The children of a node with a type have meanings. -/
theorem Agrees.means_of_meaning? (h : Agrees dict False graph node) {meaning : Meaning}
    (hplain : ∀ name, node.kind ≠ .field name true)
    (hmeaning : dict.meaning? node.key = some meaning) :
    ∀ child ∈ node.children, graph.Means dict child := by
  cases hresolved : node.resolvedType with
  | some type =>
    refine h.means ?_
    rw [hresolved]
    rfl
  | none =>
    obtain ⟨-, hmeaning'⟩ := h.unresolved hresolved id
    rw [hmeaning] at hmeaning'
    obtain ⟨type, htype, -⟩ := Option.map_eq_some_iff.mp hmeaning'.symm
    intro child hchild _
    obtain ⟨-, hnone⟩ | hcomposes := h.shape hplain
    · rw [hnone] at hchild
      cases hchild
    · have htype : node.kind.type? classes (graph.meanings dict node.children) = some type := by
        unfold Node.type? at htype
        split at htype
        · next name hkind =>
          rw [hkind] at hcomposes
          cases hcomposes
        · exact htype
      refine Kind.exists_of_type? ?_ htype _ (List.mem_map_of_mem hchild)
      unfold meanings
      rwa [List.length_map]

/-! ## Graphs that agree -/

namespace Judged

/-- A node whose key is that of an expression did not come about by a split. -/
theorem plain_of_spelled (h : Judged dict table busy graph) (hi : i < graph.size)
    (hkey : Spelled dict.known (graph.keyOf i).toList) : graph.Plain i := by
  intro name hkind
  obtain ⟨hname, -, receiver, hreceiver, hwrapper⟩ := (h.agrees i hi).wrapper name hkind
  exact hkey.ne_wrapper dict.apart hreceiver hname hwrapper

/-- What has the key of a node that reads a wrapper is one. -/
theorem resolved_of_wrapper (h : Judged dict table busy graph) (hi : i < graph.size)
    {receiver : List Char} {name : String} (hreceiver : Wrapped dict.known receiver)
    (hname : IsName name.toList)
    (hkey : (graph.keyOf i).toList = receiver ++ '.' :: '.' :: name.toList) :
    ¬ graph.Plain i ∧ (graph.node i).resolvedType.isSome := by
  have hnot : ¬ graph.Plain i := fun hplain =>
    ((h.agrees i hi).spelled hplain).ne_wrapper dict.apart hreceiver hname hkey
  obtain ⟨name, hkind⟩ := not_forall_not.mp hnot
  exact ⟨hnot, ((h.agrees i hi).wrapper name hkind).2.1⟩

/-- After a step, nodes agree that are as they were; the others are to be shown to. -/
theorem step (h : Judged dict table busy graph)
    (hstep : (Rules.any fun _ => True).Step graph next) (hopen : next.isSealed = false)
    (himports : table.Extends classes next.imports) (hbusy : ∀ i, busy i → busy' i)
    (hagrees : ∀ i < next.size, i < graph.size ∧ (next.node i).core = (graph.node i).core ∨
      Agrees dict (busy' i) next (next.node i)) : Judged dict table busy' next where
  linked := h.linked.step hstep
  isOpen := hopen
  imports := himports
  agrees := by
    intro i hi
    obtain ⟨hlt, hcore⟩ | hagrees := hagrees i hi
    · refine ((h.agrees i hlt).mono (hbusy i) (fun child hchild => ?_)
        fun child hchild => ?_).of_core hcore
      · exact hstep.keyOf (h.linked.children_lt hchild)
      · exact hstep.kind (h.linked.children_lt hchild)
    · exact hagrees

theorem of_busy (h : Judged dict table busy graph) (hbusy : ∀ i, busy i → busy' i) :
    Judged dict table busy' graph :=
  ⟨h.linked, h.isOpen, h.imports, fun i hi =>
    (h.agrees i hi).mono (hbusy i) (fun _ _ => rfl) fun _ _ => rfl⟩

/-- A new node that agrees. -/
theorem push (h : Judged dict table busy graph)
    (hstep : (Rules.any fun _ => True).Step graph (graph.push node))
    (hagrees : Agrees dict (busy graph.size) graph node)
    (hchildren : ∀ child ∈ node.children, child < graph.size) :
    Judged dict table busy (graph.push node) := by
  have hopen : (graph.push node).isSealed = false :=
    (congrArg Option.isSome imports_push.2).trans h.isOpen
  have himports : table.Extends classes (graph.push node).imports := by
    rw [imports_push.1]
    exact h.imports
  refine h.step hstep hopen himports (fun _ hi => hi) fun i hi => ?_
  rw [size_push] at hi
  rcases Nat.lt_or_eq_of_le (Nat.le_of_lt_succ hi) with hlt | rfl
  · exact .inl ⟨hlt, eq_of_push Node.core (fun _ _ => rfl) hlt⟩
  · refine .inr ?_
    rw [node_push_self]
    exact hagrees.mono id (fun child hchild => hstep.keyOf (hchildren child hchild))
      fun child hchild => hstep.kind (hchildren child hchild)

/-- A change of one node after which it agrees. -/
theorem modify {change : Node → Node} (h : Judged dict table busy graph)
    (hstep : (Rules.any fun _ => True).Step graph (graph.modify id change))
    (hbusy : ∀ i, i ≠ id → busy i → busy' i)
    (hagrees : id < graph.size →
      Agrees dict (busy' id) graph ((graph.node id).changed change)) :
    Judged dict table busy' (graph.modify id change) := by
  have hopen : (graph.modify id change).isSealed = false := h.isOpen
  refine ⟨h.linked.step hstep, hopen, h.imports, fun i hi => ?_⟩
  rw [size_modify] at hi
  have hmono {p : Prop} {node : Node} (hnode : Agrees dict p graph node)
      (hchildren : ∀ child ∈ node.children, child < graph.size) {q : Prop} (hpq : p → q) :
      Agrees dict q (graph.modify id change) node :=
    hnode.mono hpq (fun child hchild => hstep.keyOf (hchildren child hchild))
      fun child hchild => hstep.kind (hchildren child hchild)
  rw [node_modify]
  split
  · next hid =>
    obtain ⟨rfl, -⟩ := hid
    refine hmono (hagrees hi) (fun child hchild => ?_) fun h => h
    have hchild : child ∈ ((graph.modify i change).node i).children := by
      rwa [node_modify_self hi]
    have hlt := (h.linked.step hstep).children_lt hchild
    rwa [size_modify] at hlt
  · next hid =>
    have hne : i ≠ id := fun heq => hid ⟨heq, hi⟩
    exact hmono (h.agrees i hi) (fun _ hchild => h.linked.children_lt hchild) (hbusy i hne)

/-- A node is annotated. -/
theorem annotate {change : Node → Node} (h : Judged dict table busy graph)
    (hstep : (Rules.any fun _ => True).Step graph (graph.modify id change))
    (hcore : (change (graph.node id)).core = (graph.node id).core) :
    Judged dict table busy (graph.modify id change) := by
  refine h.modify hstep (fun _ _ hi => hi) fun hid => (h.agrees id hid).of_core ?_
  rwa [Node.changed_eq (congrArg (fun core => core.2.1) hcore :)]

/-- The link of a node moves, which is busy from then on. -/
theorem replaceChild {child : Nat} (h : Judged dict table busy graph)
    (hstep : (Rules.any fun _ => True).Step graph (graph.replaceChild id 0 child))
    (hchild : graph.Means dict child) (hlt : child < graph.size) :
    Judged dict table (fun i => busy i ∨ i = id) (graph.replaceChild id 0 child) := by
  have hsealed : (graph.replaceChild id 0 child).isSealed = graph.isSealed ∧
      (graph.replaceChild id 0 child).imports = graph.imports := by
    unfold Graph.replaceChild
    split
    · exact ⟨rfl, rfl⟩
    · split
      · exact ⟨rfl, rfl⟩
      · dsimp only
        split <;> exact ⟨rfl, rfl⟩
  refine h.step hstep (hsealed.1.trans h.isOpen) (hsealed.2 ▸ h.imports) (fun _ => .inl)
    fun i hi => ?_
  rw [size_replaceChild] at hi
  have hkind : ((graph.replaceChild id 0 child).node i).kind = (graph.node i).kind :=
    kind_replaceChild
  have hkey : ((graph.replaceChild id 0 child).node i).key = (graph.node i).key :=
    keyOf_replaceChild
  have hresolved : ((graph.replaceChild id 0 child).node i).resolvedType =
      (graph.node i).resolvedType := resolvedType_replaceChild
  have hdeclared : ((graph.replaceChild id 0 child).node i).declaredType =
      (graph.node i).declaredType :=
    eq_of_replaceChild Node.declaredType (fun _ _ => rfl) (fun _ _ => rfl) i
  by_cases hid : i = id
  · subst hid
    have hchildren : ((graph.replaceChild i 0 child).node i).children =
        (graph.node i).children.set 0 child := by rw [children_replaceChild, if_pos rfl]
    have hagrees := h.agrees i hi
    refine .inr ⟨?_, ?_, ?_, ?_, ?_, fun _ hnot => absurd (.inr rfl) hnot, ?_⟩
    · rw [hkind, hresolved, hkey]
      exact hagrees.wrapper
    · rw [hkind, hkey]
      exact hagrees.spelled
    · rw [hkind, hchildren, List.length_set]
      refine fun hplain => (hagrees.shape hplain).imp_left fun hleaf => ⟨hleaf.1, ?_⟩
      rw [hleaf.2, List.set_nil]
    · rw [hkind, hkey]
      exact hagrees.kind
    · rw [hkind, hkey, hresolved]
      exact hagrees.resolved
    · rw [hresolved, hchildren]
      intro hsome other hother
      unfold Means Plain
      rw [kind_replaceChild, keyOf_replaceChild]
      rcases List.mem_or_eq_of_mem_set hother with hother | rfl
      · exact hagrees.means hsome other hother
      · exact hchild
  · refine .inl ⟨hi, ?_⟩
    unfold Node.core
    rw [hkind, hkey, hdeclared, hresolved, children_replaceChild, if_neg hid]

end Judged
end Graph
end BindingPlan
