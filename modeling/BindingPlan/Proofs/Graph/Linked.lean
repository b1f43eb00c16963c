import BindingPlan.Proofs.Graph.Effects

/-!
# Links of a graph

Keys are told apart, children are nodes, and parents are recorded once for each node that has a
child: this holds of the empty graph, and each step keeps it. Every operation takes steps only, so
it holds of every graph that is built by operations, also behind one that fails halfway.

Main results:

* `Graph.Linked.step`: one step keeps the links.
* `Graph.linked_of_reached`: what holds of keys, children and parents of every graph.
-/

namespace BindingPlan
namespace Graph

variable {rules : Rules} {graph next : Graph} {id : Nat} {key : String}

/-- What the table of keys holds for the nodes of a graph, in registration order. -/
def entries (graph : Graph) : List (String × Nat) :=
  graph.ids.map fun id => (graph.keyOf id, id)

theorem mem_entries : (key, id) ∈ graph.entries ↔ id < graph.size ∧ graph.keyOf id = key := by
  simp [entries, ids, and_comm]

theorem entries_congr (hsize : next.size = graph.size) (hkey : ∀ i, next.keyOf i = graph.keyOf i) :
    next.entries = graph.entries := by
  simp [entries, ids, hsize, hkey]

/-- Keys are told apart and stand in the table, children are nodes, and parents mirror children. -/
structure Linked (graph : Graph) : Prop where
  byKey_eq : graph.byKey = graph.entries
  eq_of_keyOf : ∀ {i j : Nat}, i < graph.size → j < graph.size →
    graph.keyOf i = graph.keyOf j → i = j
  children_lt : ∀ {parent child : Nat}, child ∈ (graph.node parent).children → child < graph.size
  mem_parents : ∀ {parent child : Nat},
    parent ∈ (graph.node child).parents ↔ child ∈ (graph.node parent).children
  nodup_parents : ∀ i, (graph.node i).parents.Nodup

theorem Linked.find?_eq_some_iff (h : graph.Linked) :
    graph.find? key = some id ↔ id < graph.size ∧ graph.keyOf id = key := by
  rw [Graph.find?_eq_some_iff]
  constructor
  · rintro ⟨hid, hkey, -⟩
    exact ⟨hid, hkey⟩
  · rintro ⟨hid, rfl⟩
    refine ⟨hid, rfl, fun j hj hkey => ?_⟩
    exact Nat.ne_of_lt hj (h.eq_of_keyOf (Nat.lt_trans hj hid) hid hkey)

/-- No key is entered twice. -/
theorem Linked.nodup_byKey (h : graph.Linked) : (graph.byKey.map Prod.fst).Nodup := by
  rw [h.byKey_eq, entries, List.map_map]
  refine List.Nodup.map_on (fun i hi j hj heq => ?_) List.nodup_range
  exact h.eq_of_keyOf (List.mem_range.mp hi) (List.mem_range.mp hj) heq

theorem find?_ne_none (h : id < graph.size) : graph.find? (graph.keyOf id) ≠ none := by
  intro hnone
  rw [find?_eq_findIdx?, Array.findIdx?_eq_none_iff] at hnone
  refine beq_eq_false_iff_ne.mp (hnone graph.nodes[id] (Array.getElem_mem h)) ?_
  unfold keyOf node
  rw [Array.getD_eq_getD_getElem?, Array.getElem?_eq_getElem h]
  rfl

theorem linked_empty : Linked .empty where
  byKey_eq := rfl
  eq_of_keyOf := fun hi => absurd hi (Nat.not_lt_zero _)
  children_lt := fun h => nomatch h
  mem_parents := ⟨fun h => (nomatch h), fun h => (nomatch h)⟩
  nodup_parents := fun _ => List.nodup_nil

/-! ## Steps -/

theorem byKey_push (node : Node) :
    (graph.push node).byKey = graph.byKey ++ [(node.key, graph.size)] := by
  have hlinked (parent : Nat) (children : List Nat) (graph : Graph) :
      (children.foldl (fun graph child => graph.modify child (.addParent parent)) graph).byKey =
        graph.byKey := by
    induction children generalizing graph with
    | nil => rfl
    | cons child children ih => exact ih (graph.modify child (.addParent parent))
  unfold push append
  dsimp only
  rw [hlinked, (linked_keyOf graph.size node.children graph).1]

theorem entries_push (node : Node) :
    (graph.push node).entries = graph.entries ++ [(node.key, graph.size)] := by
  unfold entries ids
  rw [size_push, List.range_succ, List.map_append, List.map_singleton, keyOf_push, if_pos rfl]
  refine congrArg (· ++ _) (List.map_congr_left fun i hi => ?_)
  rw [keyOf_push, if_neg (Nat.ne_of_lt (List.mem_range.mp hi))]

theorem byKey_replaceChild {parent position child : Nat} :
    (graph.replaceChild parent position child).byKey = graph.byKey := by
  unfold replaceChild
  split
  · rfl
  · dsimp only
    split
    · rfl
    · split <;> rfl

section push

variable {node : Node} (h : graph.Linked) (hnew : graph.find? node.key = none)
  (hchildren : ∀ child ∈ node.children, child < graph.size) (hparents : node.parents = [])

include h hchildren hparents

theorem Linked.mem_parents_push (parent child : Nat) :
    parent ∈ ((graph.push node).node child).parents ↔
      child ∈ ((graph.push node).node parent).children := by
  by_cases hchild : child < graph.size
  · rw [node_push, if_neg (Nat.ne_of_lt hchild)]
    by_cases hparent : parent = graph.size
    · -- the new node is a parent of its children, and was no parent before
      subst hparent
      have hnone : graph.size ∉ (graph.node child).parents := by
        rw [h.mem_parents, node_of_size_le (Nat.le_refl _)]
        exact List.not_mem_nil
      rw [node_push_self]
      split
      · next hmem => exact iff_of_true (Node.mem_parents_addParent.mpr (.inr rfl)) hmem.1
      · next hmem => exact iff_of_false hnone fun hmem' => hmem ⟨hmem', hchild⟩
    · have hparents : ((graph.push node).node parent).children =
          (graph.node parent).children := by
        rcases Nat.lt_or_gt_of_ne hparent with hlt | hgt
        · exact children_push hlt
        · rw [node_push_of_lt hgt]
      rw [hparents, ← h.mem_parents]
      split
      · exact Node.mem_parents_addParent.trans (or_iff_left hparent)
      · rfl
  · -- no node has a child that was not there, and a new one has no parents
    have hnone : child ∉ ((graph.push node).node parent).children :=
      forall_push Node.children (p := fun children => child ∉ children) (fun _ _ => rfl)
        (fun hmem => hchild (hchildren child hmem))
        (fun i hmem => hchild (h.children_lt hmem)) parent
    refine iff_of_false (fun hmem => ?_) hnone
    rcases Nat.lt_or_eq_of_le (Nat.le_of_not_lt hchild) with hlt | rfl
    · rw [node_push_of_lt hlt, node_of_size_le (Nat.le_of_lt hlt)] at hmem
      exact List.not_mem_nil hmem
    · rw [node_push_self, hparents] at hmem
      exact List.not_mem_nil hmem

include hnew

theorem Linked.push : (graph.push node).Linked where
  byKey_eq := by rw [byKey_push, entries_push, h.byKey_eq]
  eq_of_keyOf := by
    intro i j hi hj
    rw [size_push] at hi hj
    rw [keyOf_push, keyOf_push]
    split
    · next hi' =>
      split
      · next hj' => exact fun _ => hi'.trans hj'.symm
      · exact fun heq => absurd hnew (heq ▸ find?_ne_none (by omega))
    · split
      · exact fun heq => absurd hnew (heq ▸ find?_ne_none (by omega))
      · exact h.eq_of_keyOf (by omega) (by omega)
  children_lt := by
    intro parent child
    rw [size_push]
    refine forall_push Node.children (p := fun children => child ∈ children →
      child < graph.size + 1) (fun _ _ => rfl) (fun hmem => ?_) (fun i hmem => ?_) parent
    · exact Nat.lt_succ_of_lt (hchildren child hmem)
    · exact Nat.lt_succ_of_lt (h.children_lt hmem)
  mem_parents := by
    intro parent child
    exact h.mem_parents_push hchildren hparents parent child
  nodup_parents := by
    intro i
    rw [node_push]
    split
    · rw [hparents]
      exact List.nodup_nil
    · split
      · exact Node.nodup_parents_addParent (h.nodup_parents i)
      · exact h.nodup_parents i

end push

theorem Linked.replaceChild (h : graph.Linked) {parent position child : Nat}
    (hchild : child < graph.size) : (graph.replaceChild parent position child).Linked where
  byKey_eq := by
    rw [byKey_replaceChild, h.byKey_eq]
    exact (entries_congr size_replaceChild fun _ => keyOf_replaceChild).symm
  eq_of_keyOf := by
    intro i j hi hj
    rw [size_replaceChild] at hi hj
    rw [keyOf_replaceChild, keyOf_replaceChild]
    exact h.eq_of_keyOf hi hj
  children_lt := by
    intro p c
    rw [children_replaceChild, size_replaceChild]
    split
    · intro hmem
      rcases List.mem_or_eq_of_mem_set hmem with hmem | rfl
      · exact h.children_lt hmem
      · exact hchild
    · exact h.children_lt
  mem_parents := by
    intro p c
    obtain ⟨old, hold, hne⟩ | hsame := graph.replaceChild_cases parent position child
    · rw [mem_parents_replaceChild hold hne hchild, children_replaceChild, h.mem_parents]
      by_cases hp : p = parent
      · subst hp
        rw [if_pos rfl]
        generalize hchildren : (graph.node p).children = children at hold
        have hlt : position < children.length := (List.getElem?_eq_some_iff.mp hold).1
        have hset : c ∈ children.set position child ↔
            c = child ∨ c ∈ children ∧ (c = old → old ∈ children.set position child) := by
          constructor
          · intro hmem
            by_cases hc : c = child
            · exact .inl hc
            · refine .inr ⟨(List.mem_or_eq_of_mem_set hmem).resolve_right hc, ?_⟩
              rintro rfl
              exact hmem
          · rintro (rfl | ⟨hmem, hold'⟩)
            · exact List.mem_set hlt c
            · by_cases hc : c = old
              · exact hc ▸ hold' hc
              · -- what is not replaced stays
                obtain ⟨k, hk⟩ := List.getElem?_of_mem hmem
                refine List.mem_of_getElem? (i := k) ?_
                rw [List.getElem?_set, if_neg, hk]
                rintro rfl
                exact hc (Option.some.inj (hk.symm.trans hold))
        rw [hset]
        simp only [and_true, true_imp_iff]
        exact or_comm
      · simp [hp]
    · rw [hsame]
      exact h.mem_parents
  nodup_parents := nodup_parents_replaceChild h.nodup_parents

/-- One step keeps the links. -/
theorem Linked.step (h : graph.Linked) (hstep : rules.Step graph next) : next.Linked := by
  cases hstep with
  | register _ isNew expression => exact h.push isNew (rules.children_lt expression) rfl
  | registerClass _ isNew => exact h.push isNew (fun _ hchild => nomatch hchild) rfl
  | registerWrapper _ _ hasReceiver isNew =>
    refine h.push isNew (fun child hchild => ?_) rfl
    cases List.mem_singleton.mp hchild
    exact h.children_lt (List.mem_of_getElem? hasReceiver)
  | annotate annotates =>
    have hchildren := eq_of_modify Node.children annotates.children
    have hparents := eq_of_modify Node.parents annotates.parents
    constructor
    · exact h.byKey_eq.trans (entries_congr (size_modify _ _) fun _ => keyOf_modify _ _ _).symm
    · intro i j hi hj heq
      rw [size_modify] at hi hj
      rw [keyOf_modify, keyOf_modify] at heq
      exact h.eq_of_keyOf hi hj heq
    · intro parent child
      rw [hchildren, size_modify]
      exact h.children_lt
    · intro parent child
      rw [hchildren, hparents]
      exact h.mem_parents
    · intro i
      rw [hparents]
      exact h.nodup_parents i
  | moveToClass _ _ _ found => exact h.replaceChild (Graph.find?_eq_some_iff.mp found).1
  | moveToWrapper _ _ _ _ found => exact h.replaceChild (Graph.find?_eq_some_iff.mp found).1
  | importClass | freeze =>
    exact ⟨h.byKey_eq, h.eq_of_keyOf, h.children_lt, h.mem_parents, h.nodup_parents⟩

theorem Linked.steps (h : graph.Linked) (hsteps : rules.Steps graph next) : next.Linked :=
  hsteps.invariant (fun _ _ hstep h => h.step hstep) h

/-! ## Operations -/

/-- What can be asked of a graph. -/
inductive Request where
  | register (kind : Kind) (children : List Nat)
  | declareVariable (name type : String)
  | symbol (text type : String)
  | addImport (wanted qualified : String)
  | classRefFor (type : ClassType)
  | bind (id : Nat)
  | resolve (classes : ClassRegistry) (id : Nat)
  | classify (classes : ClassRegistry) (id : Nat)
  | seal (classes : ClassRegistry)
  | plan

/-- Nodes are registered over nodes. -/
def Request.Refers (graph : Graph) : Request → Prop
  | .register _ children => ∀ child ∈ children, child < graph.size
  | _ => True

/-- The graph behind a request, whether it succeeds or not. -/
def Request.run (graph : Graph) : Request → Graph
  | .register kind children => ((GraphM.register kind children).run.run graph).2
  | .declareVariable name type => ((GraphM.declareVariable name type).run.run graph).2
  | .symbol text type => ((GraphM.symbol text type).run.run graph).2
  | .addImport wanted qualified => ((GraphM.addImport wanted qualified).run.run graph).2
  | .classRefFor type => ((GraphM.classRefFor type).run.run graph).2
  | .bind id => ((GraphM.bind id).run.run graph).2
  | .resolve classes id => ((GraphM.resolve classes id).run.run graph).2
  | .classify classes id => ((GraphM.classify classes id).run.run graph).2
  | .seal classes => ((GraphM.sealGraph classes).run.run graph).2
  | .plan => (GraphM.plan.run.run graph).2

/-- A graph that is built from the empty one by operations. -/
inductive Reached : Graph → Prop where
  | empty : Reached .empty
  | step {graph : Graph} (reached : Reached graph) (request : Request)
      (refers : request.Refers graph) : Reached (request.run graph)

/-- Any expressions over nodes, and any types. -/
def Rules.any (spans : Span → Prop) : Rules where
  typeName := fun _ => True
  expression := fun graph _ children => ∀ child ∈ children, child < graph.size
  children_lt := fun h => h
  unwraps := True
  unwraps_of_expression := fun _ => trivial
  ready := fun _ _ => True
  moves := True
  cycles := True
  span := spans

theorem Rules.covers_any (spans : Span → Prop) (classes : ClassRegistry) :
    (Rules.any spans).Covers classes :=
  ⟨fun _ _ => trivial, fun _ _ => trivial⟩

theorem Rules.free_any (spans : Span → Prop) : (Rules.any spans).Free :=
  ⟨fun _ _ => trivial, trivial, trivial⟩

theorem Linked.fits (h : graph.Linked) (spans : Span → Prop) : (Rules.any spans).Fits graph :=
  ⟨fun _ _ _ => trivial, fun _ _ => h.children_lt, fun _ _ _ => .inr trivial⟩

/-- A request takes steps only. -/
theorem Request.steps_run (request : Request) (h : graph.Linked) (hrefers : request.Refers graph) :
    (Rules.any fun _ => True).Steps graph (request.run graph) := by
  have hfree := Rules.free_any fun _ => True
  have hcovers := Rules.covers_any fun _ => True
  have hfits := h.fits fun _ => True
  cases request with
  | register kind children => exact (GraphM.takes_register hrefers).steps
  | declareVariable name type =>
    exact (GraphM.takes_declareVariable fun _ hchild => nomatch hchild).steps
  | symbol text type => exact (GraphM.takes_symbol fun _ hchild => nomatch hchild).steps
  | addImport wanted qualified => exact (GraphM.takes_addImport wanted qualified).steps
  | classRefFor type => exact (GraphM.takes_classRefFor trivial fun _ _ _ _ => trivial).steps
  | bind id => exact (GraphM.takes_bindRoot id).steps
  | resolve classes id => exact (GraphM.takes_resolve hfree (hcovers classes) id graph hfits).steps
  | classify classes id => exact (GraphM.takes_classify hfree (hcovers classes) hfits id).steps
  | «seal» classes => exact (GraphM.takes_sealGraph hfree (hcovers classes) hfits).steps
  | plan => exact GraphM.takes_plan.steps

theorem Reached.linked (h : Reached graph) : graph.Linked := by
  induction h with
  | empty => exact linked_empty
  | step _ request refers ih => exact ih.steps (request.steps_run ih refers)

/-- In every graph that is built by operations, whether they succeed or not: the table of keys has
an entry for each node and nothing else, so a key leads to the node that has it and to no other,
keys are told apart, children are nodes, and the parents of a node are the nodes that have it as a
child, each listed once. -/
theorem linked_of_reached (h : Reached graph) :
    (∀ key id, (key, id) ∈ graph.byKey ↔ id < graph.size ∧ graph.keyOf id = key) ∧
    (graph.byKey.map Prod.fst).Nodup ∧
    (∀ key id, graph.find? key = some id ↔ id < graph.size ∧ graph.keyOf id = key) ∧
    (∀ i j, i < graph.size → j < graph.size → graph.keyOf i = graph.keyOf j → i = j) ∧
    (∀ parent, ∀ child ∈ (graph.node parent).children, child < graph.size) ∧
    (∀ parent child,
      parent ∈ (graph.node child).parents ↔ child ∈ (graph.node parent).children) ∧
    ∀ i, (graph.node i).parents.Nodup := by
  have h := h.linked
  refine ⟨fun key id => ?_, h.nodup_byKey, fun _ _ => h.find?_eq_some_iff,
    fun _ _ => h.eq_of_keyOf, fun _ _ => h.children_lt, fun _ _ => h.mem_parents, h.nodup_parents⟩
  rw [h.byKey_eq, mem_entries]

/-- The variable of the last request occurs twice below the sum, and its type is not known. -/
theorem linked_of_reached_of_failure :
    let graph := ([.declareVariable "x" "Missing", .register (.binary (.math .add)) [0, 0],
      .resolve ⟨[]⟩ 1] : List Request).foldl Request.run .empty
    (1 ∈ (graph.node 0).parents ↔ 0 ∈ (graph.node 1).children) ∧ (graph.node 0).parents.Nodup := by
  intro graph
  have hrefers : ∀ child ∈ [0, 0],
      child < (Request.run .empty (.declareVariable "x" "Missing")).size := by decide +kernel
  have h : Reached graph :=
    ((Reached.empty.step (.declareVariable "x" "Missing") trivial).step
      (.register (.binary (.math .add)) [0, 0]) hrefers).step (.resolve ⟨[]⟩ 1) trivial
  obtain ⟨-, -, -, -, -, hparents, hnodup⟩ := linked_of_reached h
  exact ⟨hparents 1 0, hnodup 0⟩

end Graph
end BindingPlan
