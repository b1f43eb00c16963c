import BindingPlan.Proofs.Graph.Anchored
import BindingPlan.Proofs.Key.Parts

/-!
# Parts of nodes with types

An expression is registered over its parts, and they are its children until it gets its type. By
then all of them have theirs. Later its links may have moved, but its key still names the parts; so
behind any history, a node with a type tells that the parts that it was written over have types as
well.

Main results:

* `Graph.Traces`: what is known of the parts that a node was written over.
* `Graph.Traced.resolved_of_key`: what has a type and the key of an expression has parts with types.
* `GraphM.traced_settle`: settling the type of a node keeps that.
* `Graph.Grown.traced`: so do requests for written expressions.
-/

namespace BindingPlan
namespace Graph

open GraphM

variable {known : String → Prop} {graph next last : Graph} {node : Node} {i id : Nat}
  {parts ids : List Nat} {kind : Kind}

/-! ## Parts -/

/-- The key of the node is that of its kind over the nodes. -/
structure IsOver (known : String → Prop) (graph : Graph) (i : Nat) (parts : List Nat) : Prop where
  lt : ∀ part ∈ parts, part < graph.size
  takes : (graph.node i).kind.Takes known (parts.map graph.keyOf)
  key : graph.keyOf i = (graph.node i).kind.key (parts.map graph.keyOf)

/-- The nodes are what the node was written over: its children until it has a type, and with types
from then on. -/
structure Traces (known : String → Prop) (graph : Graph) (i : Nat) (parts : List Nat) : Prop
    extends IsOver known graph i parts where
  waits : (graph.node i).resolvedType = none → (graph.node i).children = parts
  resolved : (graph.node i).resolvedType.isSome →
    ∀ part ∈ parts, (graph.node part).resolvedType.isSome

/-- Nodes have keys as sources write them, types have known names, and every node that was written
over parts is traced to them. -/
structure Traced (known : String → Prop) (graph : Graph) : Prop where
  writes : ∀ i < graph.size, (graph.node i).kind.Writes known (graph.keyOf i)
  typeName : ∀ i type, (graph.node i).resolvedType = some type → known type.name
  isOver : ∀ i < graph.size, ∀ count, (graph.node i).kind.Composes count →
    ∃ parts, graph.Traces known i parts

theorem traced_empty : Traced known .empty where
  writes := fun _ h => absurd h (Nat.not_lt_zero _)
  typeName := nofun
  isOver := fun _ h => absurd h (Nat.not_lt_zero _)

theorem Retells.map_keyOf (h : graph.Retells next) (hids : ∀ id ∈ ids, id < graph.size) :
    ids.map next.keyOf = ids.map graph.keyOf :=
  List.map_congr_left fun id hid => h.keyOf id (hids id hid)

theorem Retells.resolved (h : graph.Retells next) (hi : (graph.node i).resolvedType.isSome) :
    (next.node i).resolvedType.isSome := by
  obtain ⟨type, htype⟩ := Option.isSome_iff_exists.mp hi
  exact Option.isSome_of_eq_some (h.resolvedType i type htype)

theorem IsOver.mono (h : IsOver known graph i parts) (hretells : graph.Retells next)
    (hi : i < graph.size) : IsOver known next i parts where
  lt := fun part hpart => Nat.lt_of_lt_of_le (h.lt part hpart) hretells.size_le
  takes := by
    rw [hretells.kind i hi, hretells.map_keyOf h.lt]
    exact h.takes
  key := by
    rw [hretells.keyOf i hi, hretells.kind i hi, hretells.map_keyOf h.lt]
    exact h.key

/-- Nodes with the same keys are the same nodes. -/
theorem Linked.eq_of_map_keyOf (h : graph.Linked) (hids : ∀ id ∈ ids, id < graph.size)
    (hparts : ∀ part ∈ parts, part < graph.size)
    (hkeys : ids.map graph.keyOf = parts.map graph.keyOf) :
    ids = parts := by
  induction ids generalizing parts with
  | nil => exact (List.map_eq_nil_iff.mp hkeys.symm).symm
  | cons id ids ih =>
    cases parts with
    | nil => cases hkeys
    | cons part parts =>
      rw [List.forall_mem_cons] at hids hparts
      obtain ⟨hkey, hkeys⟩ := List.cons.inj hkeys
      rw [h.eq_of_keyOf hids.1 hparts.1 hkey, ih hids.2 hparts.2 hkeys]

/-- Where a node has a type and the key of an expression, the parts of the expression have types. -/
theorem Traced.resolved_of_key (h : Traced known graph) (hapart : Apart known)
    (hlinked : graph.Linked) (hids : ∀ id ∈ ids, id < graph.size)
    (htakes : kind.Takes known (ids.map graph.keyOf)) (hi : i < graph.size)
    (hkey : graph.keyOf i = kind.key (ids.map graph.keyOf))
    (hresolved : (graph.node i).resolvedType.isSome) :
    ∀ id ∈ ids, (graph.node id).resolvedType.isSome := by
  have hkind := (h.writes i hi).eq_of_takes hapart htakes hkey
  obtain ⟨parts, hparts⟩ := h.isOver i hi _ (hkind ▸ htakes.composes)
  obtain ⟨-, hkeys⟩ := htakes.key_inj hparts.takes (hkey.symm.trans hparts.key)
  rw [hlinked.eq_of_map_keyOf hids hparts.lt hkeys]
  exact hparts.resolved hresolved

/-! ## Changes -/

/-- What a node without a type was written over is known as long as it stays as it is, and also when
it gets its type behind its children. -/
theorem Traced.mono (h : Traced known graph) (hretells : graph.Retells next)
    (hwrites : ∀ i, graph.size ≤ i → i < next.size →
      (next.node i).kind.Writes known (next.keyOf i))
    (hover : ∀ i, graph.size ≤ i → i < next.size → ∀ count, (next.node i).kind.Composes count →
      ∃ parts, next.Traces known i parts)
    (htype : ∀ i type, (next.node i).resolvedType = some type →
      (graph.node i).resolvedType = some type ∨ known type.name)
    (hwaits : ∀ i < graph.size, (graph.node i).resolvedType = none → ∀ count,
      (graph.node i).kind.Composes count →
      (next.node i).resolvedType = none ∧ (next.node i).children = (graph.node i).children ∨
      (next.node i).resolvedType.isSome ∧
        ∀ child ∈ (graph.node i).children, (next.node child).resolvedType.isSome) :
    Traced known next where
  writes := by
    intro i hi
    rcases Nat.lt_or_ge i graph.size with hlt | hge
    · rw [hretells.kind i hlt, hretells.keyOf i hlt]
      exact h.writes i hlt
    · exact hwrites i hge hi
  typeName := fun i type hi => (htype i type hi).elim (h.typeName i type) id
  isOver := by
    intro i hi count hcomposes
    rcases Nat.lt_or_ge i graph.size with hlt | hge
    · rw [hretells.kind i hlt] at hcomposes
      obtain ⟨parts, hparts⟩ := h.isOver i hlt count hcomposes
      refine ⟨parts, hparts.toIsOver.mono hretells hlt, fun hnone => ?_, fun hresolved => ?_⟩
      · cases hold : (graph.node i).resolvedType with
        | some type => cases hnone.symm.trans (hretells.resolvedType i type hold)
        | none =>
          obtain ⟨-, hsame⟩ | ⟨hsome, -⟩ := hwaits i hlt hold count hcomposes
          · exact hsame.trans (hparts.waits hold)
          · rw [hnone] at hsome
            cases hsome
      · cases hold : (graph.node i).resolvedType with
        | some type =>
          have hold := hparts.resolved (Option.isSome_of_eq_some hold)
          exact fun part hpart => hretells.resolved (hold part hpart)
        | none =>
          obtain ⟨hnone, -⟩ | ⟨-, hchildren⟩ := hwaits i hlt hold count hcomposes
          · rw [hnone] at hresolved
            cases hresolved
          · exact hparts.waits hold ▸ hchildren
    · exact hover i hge hi count hcomposes

theorem Traced.push (h : Traced known graph) (hwrites : node.kind.Writes known node.key)
    (htype : ∀ type, node.resolvedType = some type → known type.name)
    (hover : ∀ count, node.kind.Composes count →
      ∃ parts, (graph.push node).Traces known graph.size parts) :
    Traced known (graph.push node) := by
  have hlast {i : Nat} (hge : graph.size ≤ i) (hi : i < (graph.push node).size) :
      i = graph.size := by
    rw [size_push] at hi
    omega
  refine h.mono retells_push (fun i hge hi => ?_) (fun i hge hi count hcomposes => ?_)
    (fun i type hi => ?_) fun i hi hnone _ _ => .inl ⟨?_, children_push hi⟩
  · cases hlast hge hi
    rw [node_push_self, keyOf_push, if_pos rfl]
    exact hwrites
  · cases hlast hge hi
    rw [node_push_self] at hcomposes
    exact hover count hcomposes
  · rcases Nat.lt_trichotomy i graph.size with hlt | rfl | hgt
    · rw [resolvedType_push hlt] at hi
      exact .inl hi
    · rw [node_push_self] at hi
      exact .inr (htype type hi)
    · rw [node_push_of_lt hgt] at hi
      exact .inl hi
  · rw [resolvedType_push hi]
    exact hnone

/-- A class whose name goes on behind no other one is added with its type. -/
theorem Traced.pushClass (h : Traced known graph) (hapart : Apart known) {type : ClassType}
    (htype : known type.name) (shortName : String) :
    Traced known (graph.push (classNode shortName type)) := by
  refine h.push (.classRef fun p hp => hapart p type.name hp htype) ?_ nofun
  rintro _ ⟨⟩
  exact htype

theorem Traced.of_nodes_eq (h : Traced known graph) (hnodes : next.nodes = graph.nodes) :
    Traced known next := by
  have hnode : next.node = graph.node := by
    funext i
    unfold Graph.node
    rw [hnodes]
  have hsize : next.size = graph.size := congrArg Array.size hnodes
  have hretells : graph.Retells next :=
    ⟨Nat.le_of_eq hsize.symm, fun _ _ => by rw [hnode],
      fun i _ => congrArg Node.key (congrFun hnode i), fun _ _ h => by rwa [hnode]⟩
  have habsurd {i : Nat} (hge : graph.size ≤ i) (hi : i < next.size) : False := by omega
  refine h.mono hretells (fun _ hge hi => (habsurd hge hi).elim)
    (fun _ hge hi => (habsurd hge hi).elim) (fun i type hi => .inl ?_)
    fun i _ hnone _ _ => .inl ⟨?_, by rw [hnode]⟩
  · rwa [hnode] at hi
  · rwa [hnode]

/-- The node keeps its kind, its key and its links, and if it gets a type then its children have
theirs. -/
theorem Traced.modify {change : Node → Node} (h : Traced known graph)
    (hkind : (change (graph.node id)).kind = (graph.node id).kind)
    (hchildren : (change (graph.node id)).children = (graph.node id).children)
    (htype : ∀ type, (graph.node id).resolvedType = some type →
      (change (graph.node id)).resolvedType = some type)
    (hknown : ∀ type, (change (graph.node id)).resolvedType = some type →
      (graph.node id).resolvedType = some type ∨ known type.name)
    (hresolved : (graph.node id).resolvedType = none →
      (change (graph.node id)).resolvedType.isSome →
      ∀ child ∈ (graph.node id).children, (graph.node child).resolvedType.isSome) :
    Traced known (graph.modify id change) := by
  have hretells : graph.Retells (graph.modify id change) := retells_modify hkind htype
  have habsurd {i : Nat} (hge : graph.size ≤ i) (hi : i < (graph.modify id change).size) :
      False := by
    rw [size_modify] at hi
    omega
  refine h.mono hretells (fun _ hge hi => (habsurd hge hi).elim)
    (fun _ hge hi => (habsurd hge hi).elim) (fun i type hi => ?_) fun i _ hnone _ _ => ?_
  · rw [node_modify] at hi
    split at hi
    · next heq =>
      obtain ⟨rfl, -⟩ := heq
      exact hknown type hi
    · exact .inl hi
  · rw [eq_of_modify Node.children hchildren]
    cases hsome : ((graph.modify id change).node i).resolvedType with
    | none => exact .inl ⟨rfl, rfl⟩
    | some type =>
      refine .inr ⟨rfl, ?_⟩
      rw [node_modify] at hsome
      split at hsome
      · next heq =>
        obtain ⟨rfl, -⟩ := heq
        exact fun child hchild =>
          hretells.resolved (hresolved hnone (Option.isSome_of_eq_some hsome) child hchild)
      · cases hnone.symm.trans hsome

theorem Traced.setDynamic (h : Traced known graph) (id : Nat) (dynamic : Bool) :
    Traced known (graph.modify id fun node => { node with dynamic := some dynamic }) := by
  refine h.modify rfl rfl (fun _ htype => htype) (fun _ => .inl) fun hnone hsome => ?_
  rw [hnone] at hsome
  cases hsome

/-! ## While a type is settled -/

/-- While the type of a node is settled, nodes that read wrappers and nodes of classes are added,
links of that node move, and other nodes without types stay as they are. -/
structure Beside (known : String → Prop) (id : Nat) (graph next : Graph) : Prop
    extends Retells graph next where
  added : ∀ i, graph.size ≤ i → i < next.size →
    (next.node i).kind.Writes known (next.keyOf i) ∧ ∀ count, ¬ (next.node i).kind.Composes count
  typeName : ∀ i type, (next.node i).resolvedType = some type →
    (graph.node i).resolvedType = some type ∨ known type.name
  waits : ∀ i < graph.size, (graph.node i).resolvedType = none →
    (next.node i).resolvedType = none ∧
      (i ≠ id → (next.node i).children = (graph.node i).children)

theorem Beside.refl (graph : Graph) : Beside known id graph graph where
  toRetells := .refl graph
  added := fun _ hge hi => absurd hi (Nat.not_lt_of_ge hge)
  typeName := fun _ _ => .inl
  waits := fun _ _ hnone => ⟨hnone, fun _ => rfl⟩

theorem Beside.trans (h : Beside known id graph next) (h' : Beside known id next last) :
    Beside known id graph last where
  toRetells := h.toRetells.trans h'.toRetells
  added := by
    intro i hge hi
    rcases Nat.lt_or_ge i next.size with hlt | hge'
    · rw [h'.kind i hlt, h'.keyOf i hlt]
      exact h.added i hge hlt
    · exact h'.added i hge' hi
  typeName := fun i type hi => (h'.typeName i type hi).elim (h.typeName i type) .inr
  waits := by
    intro i hi hnone
    obtain ⟨hnext, hchildren⟩ := h.waits i hi hnone
    obtain ⟨hlast, hchildren'⟩ := h'.waits i (Nat.lt_of_lt_of_le hi h.size_le) hnext
    exact ⟨hlast, fun hne => (hchildren' hne).trans (hchildren hne)⟩

theorem beside_push (hwrites : node.kind.Writes known node.key)
    (hparts : ∀ count, ¬ node.kind.Composes count)
    (htype : ∀ type, node.resolvedType = some type → known type.name) :
    Beside known id graph (graph.push node) where
  toRetells := retells_push
  added := by
    intro i hge hi
    rw [size_push] at hi
    obtain rfl : i = graph.size := by omega
    rw [node_push_self, keyOf_push, if_pos rfl]
    exact ⟨hwrites, hparts⟩
  typeName := by
    intro i type hi
    rcases Nat.lt_trichotomy i graph.size with hlt | rfl | hgt
    · exact .inl (resolvedType_push hlt ▸ hi)
    · rw [node_push_self] at hi
      exact .inr (htype type hi)
    · exact .inl (node_push_of_lt hgt ▸ hi)
  waits := fun _ hi hnone => ⟨(resolvedType_push hi).trans hnone, fun _ => children_push hi⟩

theorem beside_imports (imports : ImportTable) :
    Beside known id graph { graph with imports := imports } :=
  { Beside.refl graph with toRetells := retells_imports imports }

theorem beside_replaceChild (position child : Nat) :
    Beside known id graph (graph.replaceChild id position child) where
  toRetells := retells_replaceChild id position child
  added := fun i hge hi => absurd (size_replaceChild ▸ hi) (Nat.not_lt_of_ge hge)
  typeName := fun _ _ hi => .inl (resolvedType_replaceChild ▸ hi)
  waits := fun _ _ hnone =>
    ⟨resolvedType_replaceChild.trans hnone, fun hne => by rw [children_replaceChild, if_neg hne]⟩

/-- A change of a node that keeps what it is, what it is over and its type. -/
theorem beside_modify {i : Nat} {change : Node → Node}
    (h : ({ change (graph.node i) with member := none, span := none } : Node) =
      { graph.node i with member := none, span := none }) :
    Beside known id graph (graph.modify i change) := by
  have htype : (change (graph.node i)).resolvedType = (graph.node i).resolvedType :=
    (congrArg Node.resolvedType h :)
  have hchildren : (change (graph.node i)).children = (graph.node i).children :=
    (congrArg Node.children h :)
  refine ⟨retells_modify (congrArg Node.kind h :)
    fun _ hsome => htype.trans hsome, fun j hge hj => ?_, fun j type hj => ?_, fun j _ hnone => ?_⟩
  · rw [size_modify] at hj
    exact absurd hj (Nat.not_lt_of_ge hge)
  · exact .inl ((eq_of_modify Node.resolvedType htype j).symm.trans hj)
  · exact ⟨(eq_of_modify Node.resolvedType htype j).trans hnone,
      fun _ => eq_of_modify Node.children hchildren j⟩

section

variable {classes : ClassRegistry} {member value : Member} {type : ClassType} {isStatic : Bool}
  {name : String} (hapart : Apart known)

include hapart

theorem Moves.beside (h : Moves id member type isStatic graph next) (hknown : known type.name) :
    Beside known id graph next := by
  cases h with
  | stays => exact .refl graph
  | moves _ himports =>
    refine Beside.trans ?_ (beside_replaceChild 0 _)
    cases himports with
    | stays => exact .refl graph
    | adds shortName imports =>
      refine (beside_imports imports).trans (beside_push ?_ nofun ?_)
      · exact .classRef fun p hp => hapart p type.name hp hknown
      · rintro _ ⟨⟩
        exact hknown

/-- Nodes that read wrappers have types here, so that one that is found stays as it is. -/
theorem Notes.beside (h : Notes classes id name member graph value next)
    (hwrapped : ∀ receiver, (graph.node id).children[0]? = some receiver →
      Wrapped known (graph.keyOf receiver).toList)
    (hname : IsName name.toList) (hknown : known member.type.name)
    (hwrites : ∀ i < graph.size, (graph.node i).kind.Writes known (graph.keyOf i))
    (hresolved : ∀ i < graph.size, ∀ name, (graph.node i).kind = .field name true →
      (graph.node i).resolvedType.isSome) : Beside known id graph next := by
  cases h with
  | itself => exact beside_modify rfl
  | @value receiver inner _ _ _ hasReceiver unwraps =>
    have hreceiver := hwrapped _ hasReceiver
    refine (Beside.trans ?_ (beside_replaceChild 0 _)).trans (beside_modify rfl)
    cases unwraps with
    | found hfound =>
      have hlt := (find?_eq_some_iff.mp hfound).1
      obtain ⟨other, hkind⟩ :=
        (hwrites inner hlt).isWrapper hapart hreceiver hname (keyOf_of_find? hfound)
      rw [modify_eq_self (Node.readsWrapper_eq_self (hresolved inner hlt other hkind) _ _)]
      exact .refl _
    | adds =>
      refine beside_push (.wrapper hreceiver hname) nofun ?_
      rintro _ ⟨⟩
      exact hknown

end

/-- A node gets its type that was over nodes with types when settling it began. -/
theorem Beside.traced (h : Beside known id graph next) (htraced : Traced known graph)
    (hnone : (graph.node id).resolvedType = none)
    (hchildren : ∀ child ∈ (graph.node id).children, (graph.node child).resolvedType.isSome)
    (hid : id < graph.size) {type : ClassType} (hknown : known type.name) :
    Traced known (next.modify id fun node => { node with resolvedType := some type }) := by
  have hnext : next.Retells
      (next.modify id fun node => { node with resolvedType := some type }) := by
    refine retells_modify rfl fun other hother => ?_
    rw [(h.waits id hid hnone).1] at hother
    cases hother
  have hretells := h.toRetells.trans hnext
  refine htraced.mono hretells (fun i hge hi => ?_) (fun i hge hi count hcomposes => ?_)
    (fun i other hi => ?_) fun i hi hnone' _ _ => ?_
  · rw [size_modify] at hi
    rw [hnext.kind i hi, hnext.keyOf i hi]
    exact (h.added i hge hi).1
  · rw [size_modify] at hi
    rw [hnext.kind i hi] at hcomposes
    exact absurd hcomposes ((h.added i hge hi).2 count)
  · rw [node_modify] at hi
    split at hi
    · cases hi
      exact .inr hknown
    · exact h.typeName i other hi
  · by_cases heq : i = id
    · subst heq
      refine .inr ⟨?_, fun child hchild => hretells.resolved (hchildren child hchild)⟩
      rw [node_modify_self (Nat.lt_of_lt_of_le hi h.size_le)]
      rfl
    · obtain ⟨hwaits, hsame⟩ := h.waits i hi hnone'
      rw [node_modify, if_neg fun hsame => heq hsame.1]
      exact .inl ⟨hwaits, hsame heq⟩

theorem Beside.writes (h : Beside known id graph next) (htraced : Traced known graph) :
    ∀ i < next.size, (next.node i).kind.Writes known (next.keyOf i) := by
  intro i hi
  rcases Nat.lt_or_ge i graph.size with hlt | hge
  · rw [h.kind i hlt, h.keyOf i hlt]
    exact htraced.writes i hlt
  · exact (h.added i hge hi).1

/-- A node that reads a wrapper has its type. -/
theorem Untouched.resolved_of_wrapper (h : graph.Untouched) {name : String}
    (hkind : (graph.node i).kind = .field name true) : (graph.node i).resolvedType.isSome := by
  by_contra hnone
  have hplain := (h.fresh i (Option.not_isSome_iff_eq_none.mp hnone)).plain
  rw [hkind] at hplain
  cases hplain.1

/-- An access without a type was written over its children. -/
theorem Traced.isOver_children (h : Traced known graph) (huntouched : graph.Untouched)
    (hi : i < graph.size) (hkind : (graph.node i).kind.hasReceiver = true)
    (hnone : (graph.node i).resolvedType = none) :
    IsOver known graph i (graph.node i).children := by
  have hwrapper (name : String) : (graph.node i).kind ≠ .field name true := by
    intro hwrapper
    have hresolved := huntouched.resolved_of_wrapper hwrapper
    rw [hnone] at hresolved
    cases hresolved
  obtain ⟨count, hcomposes⟩ := (h.writes i hi).exists_composes hkind hwrapper
  obtain ⟨parts, hparts⟩ := h.isOver i hi count hcomposes
  rw [hparts.waits hnone]
  exact hparts.toIsOver

end Graph

/-! ## Settling a type -/

namespace GraphM

open BindingPlan.Graph Operation

variable {known : String → Prop} {classes : ClassRegistry} {graph next : Graph} {id : Nat}
  {type : ClassType} {types : List ClassType}

section

variable (hapart : Apart known)
  (hcovers : (Rules.written known (fun _ => True) True).Covers classes)
  (huntouched : graph.Untouched) (h : Traced known graph) (hid : id < graph.size)
  (hnone : (graph.node id).resolvedType = none)

include hapart hcovers huntouched h hid hnone

theorem beside_settleField {name : String} {unwrap : Bool} {receiver : Nat}
    {receiverType : ClassType} (hkind : (graph.node id).kind = .field name unwrap)
    (hreceiver : (graph.node id).children[0]? = some receiver)
    (htype : (graph.node receiver).resolvedType = some receiverType)
    (hrun : (settleField classes id name receiver receiverType).run.run graph = (.ok type, next)) :
    Beside known id graph next ∧ known type.name := by
  obtain ⟨cause, -, h'⟩ | ⟨member, moved, hmember, hmoves, ⟨value, noted, hnotes, h'⟩ |
      ⟨-, cause, e, noted, -, h'⟩⟩ :=
    settleField_cases classes name (huntouched.isOpen hid hnone) hreceiver receiverType
  · cases h'.symm.trans hrun
  · cases h'.symm.trans hrun
    have hover := h.isOver_children huntouched hid (by rw [hkind]; rfl) hnone
    have hmem := List.mem_of_getElem? hreceiver
    have hclass := h.typeName receiver receiverType htype
    have hmoved := hmoves.beside hapart hclass
    have hname : IsName name.toList := hover.takes.composes.isName hkind
    refine ⟨hmoved.trans (hnotes.beside hapart (fun child hchild => ?_) hname
      (hcovers.findMember hmember) (hmoved.writes h) fun i hi other hwrapper => ?_), ?_⟩
    · obtain ⟨_, hfirst, ⟨-, rfl⟩ | ⟨-, hfound⟩⟩ := hmoves.getElem? hreceiver
      · cases hfirst.symm.trans hchild
        rw [hmoved.keyOf _ (hover.lt _ hmem)]
        exact .spelled (hover.takes.spelled _ (List.mem_map_of_mem hmem))
      · cases hfirst.symm.trans hchild
        rw [keyOf_of_find? hfound, Kind.toList_classKey]
        exact .spelled (.ref hclass)
    · rcases Nat.lt_or_ge i graph.size with hlt | hge
      · rw [hmoved.kind i hlt] at hwrapper
        exact hmoved.toRetells.resolved (huntouched.resolved_of_wrapper hwrapper)
      · have hspares : graph.Spares (· = id) (fun _ => True) moved := hmoves.spares
        exact hspares.settles.resolved i hge hi
    · cases hnotes with
      | itself => exact hcovers.findMember hmember
      | value _ _ _ hget => exact hcovers.findMember hget
  · cases h'.symm.trans hrun

theorem beside_settleCall {name : String} {target : Nat} {targetType : ClassType}
    (htype : (graph.node target).resolvedType = some targetType) (args : List ClassType)
    (hrun : (settleCall classes id name target targetType args).run.run graph = (.ok type, next)) :
    Beside known id graph next ∧ known type.name := by
  obtain ⟨cause, -, h'⟩ | ⟨member, moved, hmember, hmoves, h'⟩ :=
    settleCall_cases classes id name (huntouched.isOpen hid hnone) target targetType args
  · cases h'.symm.trans hrun
  · cases h'.symm.trans hrun
    exact ⟨(hmoves.beside hapart (h.typeName target targetType htype)).trans (beside_modify rfl),
      hcovers.findMethod hmember⟩

/-- Settling the type of a node that is as it was registered leaves other nodes as they are. -/
theorem beside_settle
    (htypes : List.Forall₂ (fun child type => (graph.node child).resolvedType = some type)
      (graph.node id).children types)
    (hrun : (settle classes id (graph.node id) types).run.run graph = (.ok type, next)) :
    Beside known id graph next ∧ known type.name := by
  obtain ⟨-, rfl, hknown⟩ | ⟨_, _, _, _, hkind, hfirst, htype, hrun⟩ |
      ⟨_, _, _, args, -, -, htype, hrun⟩ :=
    settle_cases hcovers (huntouched.fresh id hnone).accepts h.typeName htypes hrun
  · exact ⟨.refl _, hknown⟩
  · exact beside_settleField hapart hcovers huntouched h hid hnone hkind hfirst htype hrun
  · exact beside_settleCall hapart hcovers huntouched h hid hnone htype args hrun

/-- A node gets its type behind its children. -/
theorem traced_settle
    (htypes : List.Forall₂ (fun child type => (graph.node child).resolvedType = some type)
      (graph.node id).children types)
    (hrun : (settle classes id (graph.node id) types).run.run graph = (.ok type, next)) :
    Traced known (next.modify id fun node => { node with resolvedType := some type }) := by
  obtain ⟨hbeside, hknown⟩ := beside_settle hapart hcovers huntouched h hid hnone htypes hrun
  exact hbeside.traced h hnone (resolved_of_forall₂ htypes) hid hknown

end

end GraphM

/-! ## Graphs that are built by requests -/

namespace Graph

/-- Names, literals and expressions over parts are registered as sources write them, over classes of
known names, and looked up in the registry; and look-ups may not fail. -/
def Terms.direct (known : String → Prop) (classes : ClassRegistry) : Terms where
  leaf kind := kind.isLeaf = true ∧ kind.Writes known (kind.key [])
  composed graph kind children :=
    kind.Takes known (children.map graph.keyOf) ∧ ∀ child ∈ children, child < graph.size
  type type := known type.name
  registry other := other = classes
  fails := False

variable {known : String → Prop} {classes : ClassRegistry} {graph next : Graph}

theorem Terms.direct_below : (direct known classes).Below (plain False) where
  leaf := by
    rintro kind ⟨hleaf, -⟩
    cases kind with
    | identifier | classRef | symbol => rfl
    | field | call | binary | unary | ternary => cases hleaf
  composed := by
    rintro graph kind children ⟨htakes, hlt⟩
    have hcomposes := htakes.composes
    rw [List.length_map] at hcomposes
    exact ⟨hcomposes.isPlain, hcomposes.accepts, hlt⟩
  type := fun _ _ => trivial
  registry := fun _ _ => False.elim
  fails := id

theorem Terms.refers_direct : (direct known classes).Refers :=
  fun _ _ _ hcomposed => hcomposed.2

section

variable (hapart : Apart known)

include hapart

theorem traced_builds (h : (Terms.direct known classes).Builds graph next)
    (htraced : Traced known graph) : Traced known next := by
  cases h with
  | @register kind children isOpen isNew writes =>
    obtain ⟨⟨hleaf, hwrites⟩, rfl⟩ | ⟨htakes, hlt⟩ := writes
    · refine htraced.push hwrites nofun fun count hcomposes => ?_
      have hcomposed : kind.isLeaf = false := Kind.Composes.isLeaf hcomposes
      rw [hcomposed] at hleaf
      cases hleaf
    · refine htraced.push (.composed htakes) nofun fun _ _ => ⟨children, ⟨?_, ?_, ?_⟩, ?_, ?_⟩
      · intro child hchild
        rw [size_push]
        exact Nat.lt_succ_of_lt (hlt child hchild)
      · rw [node_push_self, retells_push.map_keyOf hlt]
        exact htakes
      · rw [node_push_self, retells_push.map_keyOf hlt, keyOf_push, if_pos rfl]
        rfl
      · rw [node_push_self]
        exact fun _ => rfl
      · rw [node_push_self]
        exact nofun
  | addClass shortName imports isOpen isNew hknown =>
    have himported : Traced known { graph with imports := imports } := htraced.of_nodes_eq rfl
    exact himported.pushClass hapart hknown shortName
  | annotate id annotates =>
    have hnode := Node.Annotated.of_eq (annotates (graph.node id))
    refine htraced.modify hnode.kind hnode.children
      (fun _ htype => hnode.resolvedType.trans htype)
      (fun _ htype => .inl (hnode.resolvedType.symm.trans htype)) fun hnone hsome => ?_
    rw [hnode.resolvedType, hnone] at hsome
    cases hsome
  | importClass => exact htraced.of_nodes_eq rfl
  | advance => exact htraced.of_nodes_eq rfl

/-- Behind all requests, nodes without types are as they were registered, and every node is traced
to the parts that it was written over. -/
theorem Grown.traced (h : Grown (.direct known classes) graph next)
    (hcovers : (Rules.written known (fun _ => True) True).Covers classes) :
    Upholds (fun graph => graph.Untouched ∧ Traced known graph) graph next := by
  refine h.upholds Terms.direct_below (fun _ _ hbuilds => traced_builds hapart hbuilds) ?_
    (fun _ id dynamic htraced => htraced.setDynamic id dynamic)
    fun _ _ hnodes htraced => htraced.of_nodes_eq hnodes
  rintro _ rfl graph next id types type huntouched htraced hid hnone htypes hrun
  exact GraphM.traced_settle hapart hcovers huntouched htraced hid hnone htypes hrun

end

end Graph
end BindingPlan
