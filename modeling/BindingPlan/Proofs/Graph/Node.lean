import BindingPlan.Proofs.Graph.Edges
import BindingPlan.Proofs.Graph.Found

/-!
# What changes of a graph do to its nodes

A change of one node leaves all others as they are. Adding a node makes it a parent of its children,
and replacing a child changes the links between three nodes and nothing else.

Main results:

* `Graph.node_modify`, `Graph.node_push`: every node behind a change and behind an addition.
* `Graph.children_replaceChild`, `Graph.mem_parents_replaceChild`, `Graph.eq_of_replaceChild`: every
  node behind the replacement of a child.
-/

namespace BindingPlan

variable {graph : Graph} {node : Node} {i id parent position child old : Nat}

/-! ## Links -/

/-- What does not hang on parents is the same with a new one. -/
theorem Node.eq_of_addParent {β : Type} (part : Node → β)
    (hparents : ∀ node parents, part { node with parents := parents } = part node) (node : Node) :
    part (node.addParent parent) = part node := by
  unfold addParent
  split
  · rfl
  · exact hparents _ _

@[simp] theorem Node.children_addParent : (node.addParent parent).children = node.children :=
  eq_of_addParent Node.children (fun _ _ => rfl) node

theorem Node.mem_parents_addParent : i ∈ (node.addParent parent).parents ↔
    i ∈ node.parents ∨ i = parent := by
  unfold addParent
  split
  · next h => exact ⟨.inl, fun hi => hi.elim id fun hi => hi ▸ h⟩
  · simp

theorem Node.nodup_parents_addParent (h : node.parents.Nodup) :
    (node.addParent parent).parents.Nodup := by
  unfold addParent
  split
  · exact h
  · next hparent => exact List.nodup_append.mpr ⟨h, by simp, by grind⟩

theorem Node.addParent_addParent :
    (node.addParent parent).addParent parent = node.addParent parent := by
  have h : parent ∈ (node.addParent parent).parents := mem_parents_addParent.mpr (.inr rfl)
  rw [addParent.eq_def parent (node.addParent parent), if_pos h]

/-- A change that keeps the key is made as it is. -/
theorem Node.changed_eq {change : Node → Node} (h : (change node).key = node.key) :
    node.changed change = change node := by
  unfold changed
  rw [← h]

@[simp] theorem Node.changed_addParent :
    node.changed (.addParent parent) = node.addParent parent :=
  changed_eq (eq_of_addParent Node.key (fun _ _ => rfl) node)

theorem Node.resolved_readsWrapper (wrapper : Member) (span : Option Span) (node : Node) :
    (node.readsWrapper wrapper span).resolvedType.isSome := by
  unfold readsWrapper
  split
  · rfl
  · next hnode =>
    rw [Option.isNone_iff_eq_none] at hnode
    exact Option.isSome_iff_ne_none.mpr hnode

namespace Graph

/-! ## One node -/

theorem node_modify (change : Node → Node) : (graph.modify id change).node i =
    if i = id ∧ i < graph.size then (graph.node i).changed change else graph.node i := by
  simp only [modify, Graph.node, size, Array.getD_eq_getD_getElem?, Array.getElem?_modify]
  by_cases hid : id = i
  · subst hid
    by_cases hlt : id < graph.nodes.size
    · simp [hlt]
    · simp [hlt]
  · simp [hid, Ne.symm hid]

/-- A change that leaves the node as it is leaves the graph as it is. -/
theorem modify_eq_self {change : Node → Node} (h : change (graph.node id) = graph.node id) :
    graph.modify id change = graph := by
  have hchanged : (graph.node id).changed change = graph.node id :=
    (Node.changed_eq (congrArg Node.key h)).trans h
  have hnodes : graph.nodes.modify id (.changed change) = graph.nodes := by
    refine Array.ext (Array.size_modify ..) fun i _ hi => ?_
    rw [Array.getElem_modify]
    split
    · next heq =>
      subst heq
      unfold node at hchanged
      rwa [Array.getElem_eq_getD default]
    · rfl
  unfold modify
  simp only [hnodes]

theorem node_modify_self {change : Node → Node} (h : id < graph.size) :
    (graph.modify id change).node id = (graph.node id).changed change := by
  rw [node_modify, if_pos ⟨rfl, h⟩]

/-- What a change keeps of the node that it is made to, it keeps of all nodes. -/
theorem eq_of_modify {β : Type} (part : Node → β) {change : Node → Node}
    (h : part ((graph.node id).changed change) = part (graph.node id)) (i : Nat) :
    part ((graph.modify id change).node i) = part (graph.node i) := by
  rw [node_modify]
  split
  · next hi => rw [hi.1, h]
  · rfl

/-! ## A new node -/

theorem node_foldl_addParent (parent i : Nat) (children : List Nat) (graph : Graph) :
    (children.foldl (fun graph child => graph.modify child (.addParent parent)) graph).node i =
      if i ∈ children ∧ i < graph.size then (graph.node i).addParent parent else graph.node i := by
  induction children generalizing graph with
  | nil => simp
  | cons child children ih =>
    rw [List.foldl_cons, ih, size_modify, node_modify]
    by_cases hsize : i < graph.size
    · by_cases hchild : i = child
      · subst hchild
        simp [hsize, Node.addParent_addParent]
      · simp [hsize, hchild]
    · simp [hsize]

theorem node_push : (graph.push node).node i =
    if i = graph.size then node
    else if i ∈ node.children ∧ i < graph.size then (graph.node i).addParent graph.size
    else graph.node i := by
  have hsize := (linked_keyOf graph.size node.children graph).1
  have hnode := node_foldl_addParent graph.size i node.children graph
  unfold push
  dsimp only at hsize hnode ⊢
  generalize node.children.foldl _ graph = linked at hsize hnode
  rw [← hnode, ← hsize]
  exact node_append node i

theorem node_push_self : (graph.push node).node graph.size = node := by
  rw [node_push, if_pos rfl]

/-- What does not hang on parents is the same for the nodes that were there. -/
theorem eq_of_push {β : Type} (part : Node → β)
    (hparents : ∀ node parents, part { node with parents := parents } = part node)
    (h : i < graph.size) : part ((graph.push node).node i) = part (graph.node i) := by
  rw [node_push, if_neg (Nat.ne_of_lt h)]
  split
  · exact Node.eq_of_addParent part hparents _
  · rfl

/-- A new node that is changed is the changed node as a new one. -/
theorem modify_push_self {change : Node → Node} (h : (change node).children = node.children) :
    (graph.push node).modify graph.size change = graph.push (node.changed change) := by
  have hsize := (linked_keyOf graph.size node.children graph).1
  have hchildren : (node.changed change).children = node.children := h
  unfold push
  rw [hchildren]
  dsimp only at hsize ⊢
  generalize node.children.foldl _ graph = linked at hsize ⊢
  rw [← hsize]
  have hnodes : (linked.nodes.push node).modify linked.nodes.size (.changed change) =
      linked.nodes.push (node.changed change) := by
    refine Array.ext (by simp) fun i hi hi' => ?_
    rw [Array.getElem_modify, Array.getElem_push, Array.getElem_push]
    rw [Array.size_push] at hi'
    split
    · next heq => rw [dif_neg (by omega), dif_neg (by omega)]
    · next heq => rw [dif_pos (by omega), dif_pos (by omega)]
  unfold append modify size
  simp only [hnodes]

theorem node_push_of_lt (h : graph.size < i) : (graph.push node).node i = graph.node i := by
  rw [node_push, if_neg (Nat.ne_of_gt h), if_neg fun hi => Nat.lt_asymm h hi.2]

theorem kind_push (h : i < graph.size) :
    ((graph.push node).node i).kind = (graph.node i).kind :=
  eq_of_push Node.kind (fun _ _ => rfl) h

theorem children_push (h : i < graph.size) :
    ((graph.push node).node i).children = (graph.node i).children :=
  eq_of_push Node.children (fun _ _ => rfl) h

theorem resolvedType_push (h : i < graph.size) :
    ((graph.push node).node i).resolvedType = (graph.node i).resolvedType :=
  eq_of_push Node.resolvedType (fun _ _ => rfl) h

/-- A new node is what it is, and what does not hang on parents is the same for all others. -/
theorem forall_push {β : Type} (part : Node → β) {p : β → Prop}
    (hparents : ∀ node parents, part { node with parents := parents } = part node)
    (hnode : p (part node)) (h : ∀ i, p (part (graph.node i))) (i : Nat) :
    p (part ((graph.push node).node i)) := by
  rcases Nat.lt_trichotomy i graph.size with hi | rfl | hi
  · rw [eq_of_push part hparents hi]
    exact h i
  · rwa [node_push_self]
  · rw [node_push_of_lt hi]
    exact h i

/-! ## A replaced child -/

/-- The parent with other children; what is no longer one of them loses its parent. -/
def relinked (graph : Graph) (parent old : Nat) (children : List Nat) : Graph :=
  let changed := graph.modify parent fun node => { node with children := children }
  if old ∈ children then changed
  else changed.modify old fun node => { node with parents := node.parents.filter (· != parent) }

variable {children : List Nat}

theorem eq_of_relinked {β : Type} (part : Node → β)
    (hchildren : ∀ node children, part { node with children := children } = part node)
    (hparents : ∀ node parents, part { node with parents := parents } = part node) (i : Nat) :
    part ((graph.relinked parent old children).node i) = part (graph.node i) := by
  unfold relinked
  dsimp only
  split
  · exact eq_of_modify part (by exact hchildren (graph.node parent) _) i
  · rw [eq_of_modify part (by exact hparents (Graph.node _ old) _)]
    exact eq_of_modify part (by exact hchildren (graph.node parent) _) i

@[simp] theorem size_relinked : (graph.relinked parent old children).size = graph.size := by
  unfold relinked
  dsimp only
  split <;> simp

theorem children_relinked (h : parent < graph.size) :
    ((graph.relinked parent old children).node i).children =
      if i = parent then children else (graph.node i).children := by
  have hchanged : ((graph.modify parent fun node => { node with children := children }).node
      i).children = if i = parent then children else (graph.node i).children := by
    rw [node_modify]
    by_cases hi : i = parent
    · simp [hi, h, Node.changed]
    · simp [hi]
  unfold relinked
  dsimp only
  split
  · exact hchanged
  · rw [eq_of_modify Node.children rfl, hchanged]

theorem parents_relinked : ((graph.relinked parent old children).node i).parents =
    if i = old ∧ old ∉ children then (graph.node i).parents.filter (· != parent)
    else (graph.node i).parents := by
  have hchanged (i : Nat) :
      ((graph.modify parent fun node => { node with children := children }).node i).parents =
        (graph.node i).parents :=
    eq_of_modify Node.parents rfl i
  unfold relinked
  dsimp only
  split
  · next hold => rw [hchanged, if_neg fun h => h.2 hold]
  · next hold =>
    rw [node_modify, size_modify]
    by_cases hi : i = old
    · subst hi
      by_cases hlt : i < graph.size
      · simp [hlt, hold, hchanged, Node.changed]
      · rw [if_neg fun h => hlt h.2, hchanged, node_of_size_le (Nat.le_of_not_lt hlt)]
        split <;> rfl
    · simp [hi, hchanged]

theorem replaceChild_of_getElem? (hold : (graph.node parent).children[position]? = some old)
    (hne : old ≠ child) : graph.replaceChild parent position child =
      (graph.relinked parent old ((graph.node parent).children.set position child)).modify child
        (.addParent parent) := by
  unfold replaceChild
  rw [hold]
  exact if_neg hne

theorem replaceChild_eq_self
    (h : ∀ old, (graph.node parent).children[position]? = some old → old = child) :
    graph.replaceChild parent position child = graph := by
  unfold replaceChild
  split
  · rfl
  · next old hold => rw [if_pos (h old hold)]

/-- Either the child stands there already, or the links change. -/
theorem replaceChild_cases (graph : Graph) (parent position child : Nat) :
    (∃ old, (graph.node parent).children[position]? = some old ∧ old ≠ child) ∨
      graph.replaceChild parent position child = graph := by
  by_cases h : ∃ old, (graph.node parent).children[position]? = some old ∧ old ≠ child
  · exact .inl h
  · exact .inr (replaceChild_eq_self fun old hold => by_contra fun hne => h ⟨old, hold, hne⟩)

/-- What hangs on no link is the same behind a replacement. -/
theorem eq_of_replaceChild {β : Type} (part : Node → β)
    (hchildren : ∀ node children, part { node with children := children } = part node)
    (hparents : ∀ node parents, part { node with parents := parents } = part node) (i : Nat) :
    part ((graph.replaceChild parent position child).node i) = part (graph.node i) := by
  obtain ⟨old, hold, hne⟩ | h := graph.replaceChild_cases parent position child
  · rw [replaceChild_of_getElem? hold hne, eq_of_modify part ?_,
      eq_of_relinked part hchildren hparents]
    rw [Node.changed_addParent]
    exact Node.eq_of_addParent part hparents _
  · rw [h]

@[simp] theorem kind_replaceChild : ((graph.replaceChild parent position child).node i).kind =
    (graph.node i).kind :=
  eq_of_replaceChild Node.kind (fun _ _ => rfl) (fun _ _ => rfl) i

@[simp] theorem keyOf_replaceChild : (graph.replaceChild parent position child).keyOf i =
    graph.keyOf i :=
  eq_of_replaceChild Node.key (fun _ _ => rfl) (fun _ _ => rfl) i

@[simp] theorem span_replaceChild : ((graph.replaceChild parent position child).node i).span =
    (graph.node i).span :=
  eq_of_replaceChild Node.span (fun _ _ => rfl) (fun _ _ => rfl) i

@[simp] theorem resolvedType_replaceChild :
    ((graph.replaceChild parent position child).node i).resolvedType =
      (graph.node i).resolvedType :=
  eq_of_replaceChild Node.resolvedType (fun _ _ => rfl) (fun _ _ => rfl) i

@[simp] theorem size_replaceChild : (graph.replaceChild parent position child).size =
    graph.size := by
  obtain ⟨old, hold, hne⟩ | h := graph.replaceChild_cases parent position child
  · rw [replaceChild_of_getElem? hold hne, size_modify, size_relinked]
  · rw [h]

theorem lt_size_of_children (h : child ∈ (graph.node parent).children) : parent < graph.size := by
  by_contra hparent
  rw [node_of_size_le (Nat.le_of_not_lt hparent)] at h
  cases h

theorem children_replaceChild : ((graph.replaceChild parent position child).node i).children =
    if i = parent then (graph.node parent).children.set position child
    else (graph.node i).children := by
  by_cases hold : ∃ old, (graph.node parent).children[position]? = some old ∧ old ≠ child
  · obtain ⟨old, hold, hne⟩ := hold
    rw [replaceChild_of_getElem? hold hne, eq_of_modify Node.children Node.children_addParent,
      children_relinked (lt_size_of_children (List.mem_of_getElem? hold))]
  · have hsame : ∀ old, (graph.node parent).children[position]? = some old → old = child :=
      fun old h => by_contra fun hne => hold ⟨old, h, hne⟩
    rw [replaceChild_eq_self hsame]
    split
    · next hi =>
      subst hi
      by_cases hlt : position < (graph.node i).children.length
      · rw [← hsame _ (List.getElem?_eq_getElem hlt), List.set_getElem_self]
      · rw [List.set_eq_of_length_le (Nat.le_of_not_lt hlt)]
    · rfl

theorem mem_parents_replaceChild (hold : (graph.node parent).children[position]? = some old)
    (hne : old ≠ child) (hchild : child < graph.size) :
    id ∈ ((graph.replaceChild parent position child).node i).parents ↔
      (id ∈ (graph.node i).parents ∧
        (i = old → id = parent → old ∈ (graph.node parent).children.set position child)) ∨
      i = child ∧ id = parent := by
  rw [replaceChild_of_getElem? hold hne]
  have hrelinked : id ∈ ((graph.relinked parent old
      ((graph.node parent).children.set position child)).node i).parents ↔
      id ∈ (graph.node i).parents ∧
        (i = old → id = parent → old ∈ (graph.node parent).children.set position child) := by
    rw [parents_relinked]
    split
    · next h =>
      rw [List.mem_filter, bne_iff_ne]
      exact and_congr_right fun _ => ⟨fun hid _ heq => absurd heq hid,
        fun hid heq => h.2 (hid h.1 heq)⟩
    · next h => exact (and_iff_left fun hi _ => by_contra fun hmem => h ⟨hi, hmem⟩).symm
  rw [node_modify, size_relinked]
  split
  · next hi =>
    rw [Node.changed_addParent, Node.mem_parents_addParent, hrelinked]
    exact or_congr_right (and_iff_right hi.1).symm
  · next hi =>
    rw [hrelinked]
    refine (or_iff_left ?_).symm
    rintro ⟨rfl, -⟩
    exact hi ⟨rfl, hchild⟩

theorem nodup_parents_replaceChild (h : ∀ i, (graph.node i).parents.Nodup) (i : Nat) :
    ((graph.replaceChild parent position child).node i).parents.Nodup := by
  obtain ⟨old, hold, hne⟩ | heq := graph.replaceChild_cases parent position child
  · have hrelinked (children : List Nat) :
        ((graph.relinked parent old children).node i).parents.Nodup := by
      rw [parents_relinked]
      split
      · exact (h i).filter _
      · exact h i
    rw [replaceChild_of_getElem? hold hne, node_modify]
    split
    · exact Node.nodup_parents_addParent (hrelinked _)
    · exact hrelinked _
  · rw [heq]
    exact h i

end Graph
end BindingPlan
