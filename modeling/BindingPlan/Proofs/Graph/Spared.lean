import BindingPlan.Proofs.Graph.Accesses

/-!
# Nodes without types

While types are looked up, nodes that have none yet are left alone, but for the one that a type is
settled for; and it is known from their keys which nodes may get types.

Main results:

* `Graph.Spares`: nodes without types stay as they are, and which nodes get types.
* `Graph.Moves.spares`, `Graph.Notes.spares`: what an access with a member spares.
-/

namespace BindingPlan

/-- The node without its parents. -/
def Node.unlinked (node : Node) : Node :=
  { node with parents := [] }

/-- Nodes that are the same up to their links, and have the same children, are the same up to their
parents. -/
theorem Node.unlinked_congr {node other : Node}
    (hrest : { node.unlinked with children := [] } = { other.unlinked with children := [] })
    (hchildren : node.children = other.children) : node.unlinked = other.unlinked := by
  have h := congrArg (fun rest : Node => { rest with children := node.children }) hrest
  rw [hchildren] at h
  exact (congrArg (fun children => { node.unlinked with children := children }) hchildren).trans h

namespace Graph

variable {graph next last : Graph} {busy : Nat → Prop} {sets wanted : String → Prop} {i id : Nat}
  {node : Node}

/-! ## Sparing nodes -/

/-- Nodes that have no type behind it are the same in front of it, unless they are busy; and only
nodes with the given keys get types. -/
structure Spares (busy : Nat → Prop) (sets : String → Prop) (graph next : Graph) : Prop where
  settles : graph.Settles next
  isSealed : next.isSealed = graph.isSealed
  kind : ∀ i < graph.size, (next.node i).kind = (graph.node i).kind
  keyOf : ∀ i < graph.size, next.keyOf i = graph.keyOf i
  same : ∀ i < graph.size, ¬ busy i → (next.node i).resolvedType = none →
    (next.node i).unlinked = (graph.node i).unlinked
  filled : ∀ i < graph.size, (graph.node i).resolvedType = none →
    (next.node i).resolvedType = none ∨ sets (graph.keyOf i)

/-- What has no type had none before. -/
theorem Remembers.unresolved (h : graph.Remembers next)
    (hnone : (next.node i).resolvedType = none) : (graph.node i).resolvedType = none := by
  by_contra hsome
  have hsome := h.resolved (Option.isSome_iff_ne_none.mpr hsome)
  rw [hnone] at hsome
  cases hsome

theorem Spares.refl (graph : Graph) : graph.Spares busy sets graph where
  settles := .refl graph
  isSealed := rfl
  kind := fun _ _ => rfl
  keyOf := fun _ _ => rfl
  same := fun _ _ _ _ => rfl
  filled := fun _ _ hnone => .inl hnone

theorem Spares.trans (h : graph.Spares busy sets next) (h' : next.Spares busy sets last) :
    graph.Spares busy sets last := by
  have hlt {i : Nat} (hi : i < graph.size) : i < next.size :=
    Nat.lt_of_lt_of_le hi h.settles.size_le
  refine ⟨h.settles.trans h'.settles, h'.isSealed.trans h.isSealed,
    fun i hi => (h'.kind i (hlt hi)).trans (h.kind i hi),
    fun i hi => (h'.keyOf i (hlt hi)).trans (h.keyOf i hi), fun i hi hbusy hnone => ?_,
    fun i hi hnone => ?_⟩
  · exact (h'.same i (hlt hi) hbusy hnone).trans
      (h.same i hi hbusy (h'.settles.remembers.unresolved hnone))
  · refine (h.filled i hi hnone).elim (fun hnone => ?_) .inr
    exact h.keyOf i hi ▸ h'.filled i (hlt hi) hnone

instance : IsPreorder Graph (Spares busy sets) where
  refl := .refl
  trans _ _ _ := .trans

theorem Spares.imp (h : graph.Spares busy sets next) (hsets : ∀ key, sets key → wanted key) :
    graph.Spares busy wanted next :=
  { h with filled := fun i hi hnone => (h.filled i hi hnone).imp_right (hsets _) }

theorem Spares.of_free (h : graph.Spares (fun _ => False) sets next) :
    graph.Spares busy sets next :=
  { h with same := fun i hi _ => h.same i hi (fun h => h) }

/-- A node that is busy in the end is one that gets its type. -/
theorem Spares.resolved (h : graph.Spares (· = id) sets next) (type : ClassType)
    (hnone : (graph.node id).resolvedType = none) (hsets : sets (graph.keyOf id)) :
    graph.Spares (fun _ => False) sets
      (next.modify id fun node => { node with resolvedType := some type }) where
  settles :=
    h.settles.modify (allows_remembers.resolved id type hnone h.settles.remembers) fun _ => rfl
  isSealed := h.isSealed
  kind := fun i hi => (eq_of_modify Node.kind rfl i).trans (h.kind i hi)
  keyOf := fun i hi => (eq_of_modify Node.key rfl i).trans (h.keyOf i hi)
  same := by
    intro i hi _ hnone
    rw [node_modify] at hnone ⊢
    split at hnone
    · cases hnone
    · next hne =>
      rw [if_neg hne]
      refine h.same i hi (fun heq => hne ⟨heq, ?_⟩) hnone
      exact Nat.lt_of_lt_of_le hi h.settles.size_le
  filled := by
    intro i hi hnone'
    rw [node_modify]
    split
    · next heq => exact .inr (heq.1 ▸ hsets)
    · exact h.filled i hi hnone'

theorem spares_imports (imports : ImportTable) :
    graph.Spares busy sets { graph with imports := imports } :=
  ⟨settles_imports imports, rfl, fun _ _ => rfl, fun _ _ => rfl, fun _ _ _ _ => rfl,
    fun _ _ hnone => .inl hnone⟩

theorem spares_push (h : node.resolvedType.isSome) :
    graph.Spares busy sets (graph.push node) where
  settles := settles_push h
  isSealed := isSealed_push graph node
  kind := fun _ => kind_push
  keyOf := fun _ => eq_of_push Node.key fun _ _ => rfl
  same := fun _ hi _ _ => eq_of_push Node.unlinked (fun _ _ => rfl) hi
  filled := fun _ hi hnone => .inl (by rwa [resolvedType_push hi])

theorem spares_replaceChild (position child : Nat) :
    graph.Spares (· = id) sets (graph.replaceChild id position child) where
  settles := settles_replaceChild id position child
  isSealed := isSealed_replaceChild graph id position child
  kind := fun _ _ => kind_replaceChild
  keyOf := fun _ _ => keyOf_replaceChild
  same := by
    intro i _ hbusy _
    refine Node.unlinked_congr ?_ (by rw [children_replaceChild, if_neg hbusy])
    exact eq_of_replaceChild (fun node => { node.unlinked with children := [] }) (fun _ _ => rfl)
      (fun _ _ => rfl) i
  filled := fun _ _ hnone => .inl (by rwa [resolvedType_replaceChild])

theorem spares_member (member : Member) : graph.Spares (· = id) sets
    (graph.modify id fun node => { node with member := some member }) where
  settles := settles_modify fun _ => .of_eq rfl
  isSealed := rfl
  kind := fun i _ => eq_of_modify Node.kind rfl i
  keyOf := fun i _ => eq_of_modify Node.key rfl i
  same := by
    intro i _ hbusy _
    rw [node_modify, if_neg fun h => hbusy h.1]
  filled := fun i _ hnone => .inl ((eq_of_modify Node.resolvedType rfl i).trans hnone)

theorem spares_readsWrapper (wrapper : Member) (span : Option Span)
    (hsets : sets (graph.keyOf id)) :
    graph.Spares busy sets (graph.modify id (Node.readsWrapper wrapper span)) where
  settles := settles_modify (Node.refines_readsWrapper wrapper span)
  isSealed := rfl
  kind := fun i _ => eq_of_modify Node.kind (Node.kind_readsWrapper _ _ _) i
  keyOf := fun i _ => keyOf_modify _ _ i
  same := by
    intro i _ _ hnone
    rw [node_modify] at hnone ⊢
    split at hnone
    · exact absurd hnone (Option.isSome_iff_ne_none.mp (Node.resolved_readsWrapper wrapper span _))
    · next hne => rw [if_neg hne]
  filled := by
    intro i _ hnone
    rw [node_modify]
    split
    · next heq => exact .inr (heq.1 ▸ hsets)
    · exact .inl hnone

/-- Moving a receiver gives no node a type. -/
theorem Moves.spares {member : Member} {type : ClassType} {isStatic : Bool}
    (h : Moves id member type isStatic graph next) : graph.Spares (· = id) sets next := by
  cases h with
  | stays => exact .refl graph
  | moves _ himports =>
    refine Spares.trans ?_ (spares_replaceChild 0 _)
    cases himports with
    | stays => exact .refl graph
    | adds shortName imports => exact (spares_imports imports).trans (spares_push rfl)

/-- Noting a member gives a type to the node that reads a wrapper, if any. -/
theorem Notes.spares {classes : ClassRegistry} {name : String} {member value : Member}
    (h : Notes classes id name member graph value next)
    (hsets : ∀ receiver, (graph.node id).children[0]? = some receiver →
      sets (graph.keyOf receiver ++ ".." ++ name)) : graph.Spares (· = id) sets next := by
  cases h with
  | itself => exact spares_member member
  | value _ hasReceiver unwraps =>
    refine Spares.trans (Spares.trans ?_ (spares_replaceChild 0 _)) (spares_member value)
    cases unwraps with
    | found found =>
      refine spares_readsWrapper member _ ?_
      rw [keyOf_of_find? found]
      exact hsets _ hasReceiver
    | adds => exact spares_push (Node.resolved_readsWrapper member _ _)

end Graph
end BindingPlan
