import BindingPlan.Proofs.Graph.Kept
import Mathlib.Data.List.Forall2

/-!
# Registered nodes stay found

No operation on a graph takes a node away or changes its key: a node that is found by a key is found
by it from then on, whatever is registered, resolved, split or sealed later.

Main results:

* `Graph.Keeps`: what stays found in a later graph.
* `Graph.allows_keeps`: nodes stay found across every operation.
* `GraphM.finds_register`: the node for a kind over children is found by its key.
-/

namespace BindingPlan
namespace Graph

variable {graph next last : Graph} {key : String} {id : Nat}

/-- Every node that is found by a key is found by it in the later graph. -/
def Keeps (graph next : Graph) : Prop :=
  ∀ key id, graph.find? key = some id → next.find? key = some id

theorem Keeps.refl (graph : Graph) : graph.Keeps graph :=
  fun _ _ h => h

theorem Keeps.trans (h : graph.Keeps next) (h' : next.Keeps last) : graph.Keeps last :=
  fun key id hid => h' key id (h key id hid)

instance : IsPreorder Graph Keeps where
  refl := .refl
  trans _ _ _ := .trans

theorem find?_eq_findIdx? (graph : Graph) (key : String) :
    graph.find? key = graph.nodes.findIdx? (·.key == key) :=
  graph.tableInStep key

/-- The first node with the key is found. -/
theorem find?_eq_some_iff : graph.find? key = some id ↔
    id < graph.size ∧ graph.keyOf id = key ∧ ∀ j < id, graph.keyOf j ≠ key := by
  have hkeyOf {i : Nat} (hi : i < graph.nodes.size) : graph.keyOf i = graph.nodes[i].key := by
    unfold keyOf node
    rw [Array.getD_eq_getD_getElem?, Array.getElem?_eq_getElem hi]
    rfl
  unfold size
  rw [find?_eq_findIdx?, Array.findIdx?_eq_some_iff_getElem]
  constructor
  · rintro ⟨hid, heq, hfirst⟩
    refine ⟨hid, (hkeyOf hid).trans (beq_iff_eq.mp heq), fun j hj hkey => ?_⟩
    rw [hkeyOf (Nat.lt_trans hj hid)] at hkey
    exact hfirst j hj (beq_iff_eq.mpr hkey)
  · rintro ⟨hid, heq, hfirst⟩
    refine ⟨hid, beq_iff_eq.mpr ((hkeyOf hid).symm.trans heq), fun j hj hkey => ?_⟩
    exact hfirst j hj ((hkeyOf (Nat.lt_trans hj hid)).trans (beq_iff_eq.mp hkey))

theorem keyOf_of_find? (h : graph.find? key = some id) : graph.keyOf id = key :=
  (find?_eq_some_iff.mp h).2.1

/-- Each key leads to the node at its position. -/
def FindsAll (graph : Graph) (keys : List String) (ids : List Nat) : Prop :=
  List.Forall₂ (fun key id => graph.find? key = some id) keys ids

theorem FindsAll.map_keyOf {keys : List String} {ids : List Nat} (h : graph.FindsAll keys ids) :
    ids.map graph.keyOf = keys := by
  induction h with
  | nil => rfl
  | cons hid _ ih => rw [List.map_cons, keyOf_of_find? hid, ih]

theorem FindsAll.exists_of_mem {keys : List String} {ids : List Nat} (h : graph.FindsAll keys ids)
    (hid : id ∈ ids) : ∃ key ∈ keys, graph.find? key = some id := by
  induction h with
  | nil => cases hid
  | cons hfirst _ ih =>
    rcases List.mem_cons.mp hid with rfl | hid
    · exact ⟨_, List.mem_cons_self, hfirst⟩
    · exact (ih hid).imp fun _ h => ⟨List.mem_cons_of_mem _ h.1, h.2⟩

theorem keeps_of_keyOf (hsize : graph.size ≤ next.size)
    (hkey : ∀ i < graph.size, next.keyOf i = graph.keyOf i) : graph.Keeps next := by
  intro key id h
  rw [find?_eq_some_iff] at h ⊢
  obtain ⟨hid, heq, hfirst⟩ := h
  refine ⟨Nat.lt_of_lt_of_le hid hsize, (hkey id hid).trans heq, fun j hj => ?_⟩
  rw [hkey j (Nat.lt_trans hj hid)]
  exact hfirst j hj

@[simp] theorem size_modify (id : Nat) (change : Node → Node) :
    (graph.modify id change).size = graph.size :=
  Array.size_modify

theorem keyOf_modify (change : Node → Node) (id i : Nat) :
    (graph.modify id change).keyOf i = graph.keyOf i := by
  unfold keyOf node modify
  simp only [Array.getD_eq_getD_getElem?, Array.getElem?_modify]
  split
  · next heq =>
    subst heq
    cases graph.nodes[id]? <;> rfl
  · rfl

theorem Keeps.modify (h : graph.Keeps next) (change : Node → Node) :
    graph.Keeps (next.modify id change) :=
  h.trans (keeps_of_keyOf (Nat.le_of_eq (size_modify id change).symm) fun i _ =>
    keyOf_modify change id i)

/-- Making a node a parent of others changes no key. -/
theorem linked_keyOf (parent : Nat) (children : List Nat) (graph : Graph) :
    let linked := children.foldl (fun graph child => graph.modify child (.addParent parent)) graph
    linked.size = graph.size ∧ ∀ i, linked.keyOf i = graph.keyOf i := by
  induction children generalizing graph with
  | nil => exact ⟨rfl, fun _ => rfl⟩
  | cons child children ih =>
    obtain ⟨hsize, hkey⟩ := ih (graph.modify child (.addParent parent))
    refine ⟨hsize.trans (size_modify _ _), fun i => (hkey i).trans ?_⟩
    exact keyOf_modify (.addParent parent) child i

theorem size_append (node : Node) : (graph.append node).size = graph.size + 1 :=
  Array.size_push _

theorem node_append (node : Node) (i : Nat) :
    (graph.append node).node i = if i = graph.size then node else graph.node i := by
  unfold append Graph.node size
  simp only [Array.getD_eq_getD_getElem?, Array.getElem?_push]
  split <;> rfl

theorem size_push (node : Node) : (graph.push node).size = graph.size + 1 :=
  (size_append node).trans (congrArg (· + 1) (linked_keyOf graph.size node.children graph).1)

theorem keyOf_push (node : Node) (i : Nat) :
    (graph.push node).keyOf i = if i = graph.size then node.key else graph.keyOf i := by
  obtain ⟨hsize, hkey⟩ := linked_keyOf graph.size node.children graph
  have hkey := hkey i
  unfold push
  dsimp only at hsize hkey ⊢
  generalize node.children.foldl _ graph = linked at *
  rw [← hkey, ← hsize]
  unfold keyOf
  rw [node_append]
  split <;> rfl

theorem keeps_push (node : Node) : graph.Keeps (graph.push node) := by
  refine keeps_of_keyOf (by rw [size_push]; omega) fun i hi => ?_
  rw [keyOf_push, if_neg (by omega)]

theorem find?_push_self {node : Node} (h : graph.find? node.key = none) :
    (graph.push node).find? node.key = some graph.size := by
  rw [find?_eq_some_iff, size_push, keyOf_push, if_pos rfl]
  refine ⟨Nat.lt_succ_self _, rfl, fun j hj hkey => ?_⟩
  rw [keyOf_push, if_neg (by omega)] at hkey
  -- then the first node with the key would have been found
  rw [find?_eq_findIdx?, Array.findIdx?_eq_none_iff] at h
  have hnode := h graph.nodes[j] (Array.getElem_mem hj)
  unfold keyOf Graph.node at hkey
  rw [Array.getD_eq_getD_getElem?, Array.getElem?_eq_getElem hj] at hkey
  exact absurd hkey (beq_eq_false_iff_ne.mp hnode)

/-- A new node is found by its own key only. -/
theorem find?_push_of_ne {node : Node} (hne : key ≠ node.key) :
    (graph.push node).find? key = graph.find? key := by
  refine Option.ext fun i => ?_
  rw [find?_eq_some_iff, find?_eq_some_iff, size_push]
  simp only [keyOf_push]
  constructor
  · rintro ⟨hi, hkey, hfirst⟩
    split at hkey
    · exact absurd hkey.symm hne
    · refine ⟨by omega, hkey, fun j hj => ?_⟩
      have := hfirst j hj
      rwa [if_neg (by omega)] at this
  · rintro ⟨hi, hkey, hfirst⟩
    refine ⟨by omega, ?_, fun j hj => ?_⟩
    · rw [if_neg (by omega), hkey]
    · rw [if_neg (by omega)]
      exact hfirst j hj

theorem keeps_replaceChild (parent position child : Nat) :
    graph.Keeps (graph.replaceChild parent position child) := by
  unfold replaceChild
  split
  · exact .refl _
  · next old hold =>
    split
    · exact .refl _
    · refine .modify ?_ _
      split
      · exact .modify (.refl _) _
      · exact .modify (.modify (.refl _) _) _

/-- Nodes are found alike in graphs with the same nodes. -/
theorem keeps_of_nodes_eq (h : next.nodes = graph.nodes) : graph.Keeps next := by
  intro key id hid
  rw [find?_eq_findIdx?] at hid ⊢
  rw [h]
  exact hid

theorem allows_keeps : Allows Keeps where
  push := fun _ _ _ _ => keeps_push _
  annotate := fun _ _ _ _ => .modify (.refl _) _
  replaceChild := fun _ => keeps_replaceChild
  importClass := fun _ _ => keeps_of_nodes_eq rfl
  freeze := fun _ _ => keeps_of_nodes_eq rfl
  resolved := fun _ _ _ h => h.modify _
  classified := fun _ _ _ h => h.modify _

end Graph

/-! ## Operations -/

namespace GraphM

open Operation

variable {α : Type} {classes : ClassRegistry}

/-- The operation keeps found nodes, whether it succeeds or not. -/
abbrev Keeps (operation : GraphM α) : Prop :=
  Operation.Keeps Graph.Keeps operation

/-! ## Registering -/

/-- Whenever the operation gives a node, the key leads to that node afterwards. -/
def Finds (operation : GraphM Nat) (graph : Graph) (key : String) : Prop :=
  ∀ id next, operation.run.run graph = (.ok id, next) → next.find? key = some id

theorem finds_register (kind : Kind) (children : List Nat) (graph : Graph) :
    Finds (register kind children) graph (kind.key (children.map graph.keyOf)) := by
  intro id next hrun
  obtain ⟨_, hfind, h⟩ | ⟨-, h⟩ | ⟨-, hnone, h⟩ := register_cases kind children graph
  · cases h.symm.trans hrun
    exact hfind
  · cases h.symm.trans hrun
  · cases h.symm.trans hrun
    exact Graph.find?_push_self hnone

/-- The node over children that are found by their keys. -/
theorem finds_register_of_found (kind : Kind) {children : List Nat} {keys : List String}
    {graph : Graph} (h : graph.FindsAll keys children) :
    Finds (register kind children) graph (kind.key keys) := by
  rw [← h.map_keyOf]
  exact finds_register kind children graph

/-- What is done with a node that was found leaves it found. -/
theorem Finds.followed {x : GraphM Nat} {graph : Graph} {key : String} (h : Finds x graph key)
    {after : Nat → GraphM Unit} (hafter : ∀ id, Keeps (after id)) :
    Finds (x >>= fun id => after id >>= fun _ => pure id) graph key := by
  intro id next hrun
  obtain ⟨found, graph₁, hfound, hrun⟩ := exists_of_run_bind hrun
  obtain ⟨_, graph₂, hdone, hrun⟩ := exists_of_run_bind hrun
  cases hrun
  exact (hafter id).of_run hdone key id (h id graph₁ hfound)

theorem finds_symbol (text type : String) (graph : Graph) : Finds (symbol text type) graph text :=
  (finds_register _ _ graph).followed fun id => Graph.allows_keeps.declareType type id

theorem finds_declareVariable (name type : String) (graph : Graph) :
    Finds (declareVariable name type) graph name := by
  have hnext (id : Nat) : Keeps (ensureOpen >>= fun _ =>
      modifyNode id fun node => { node with declaredType := some type }) :=
    keeps_bind Graph.keeps_ensureOpen fun _ => Graph.allows_keeps.declareType type id
  have h := (finds_register (.identifier name) [] graph).followed hnext
  simp only [bind_assoc] at h
  exact h

end GraphM
end BindingPlan
