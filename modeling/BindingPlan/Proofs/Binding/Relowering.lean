import BindingPlan.Proofs.Binding.Expanded
import BindingPlan.Proofs.Binding.History
import BindingPlan.Proofs.Graph.Judged

/-!
# Lowering trees over variables

While the graph is open, lowering a tree over variables always gives a node. If the graph had all
nodes of the tree before, none is added; and when the tree was lowered once, the graph has them all.

Main results:

* `Graph.Holds`: a graph has the nodes of an expression and of all its parts.
* `BinderM.exists_run_lower`: what lowering gives, and when it adds no node.
-/

namespace BindingPlan

theorem Tree.expressions_eq_map (trees : List Tree) :
    Tree.expressions trees = trees.map Tree.expression := by
  induction trees with
  | nil => rfl
  | cons tree trees ih => rw [expressions, ih, List.map_cons]

namespace Graph

variable {graph next : Graph} {e : Expression} {key : String} {id : Nat}

/-- The graph has the nodes of the expression and of all its parts. -/
inductive Holds (graph : Graph) : Expression → Prop
  | intro {e : Expression} (found : (graph.find? e.key).isSome)
      (parts : ∀ part ∈ e.parts, Holds graph part) : Holds graph e

theorem Holds.found (h : graph.Holds e) : (graph.find? e.key).isSome := by
  cases h with
  | intro found _ => exact found

theorem Holds.parts (h : graph.Holds e) : ∀ part ∈ e.parts, graph.Holds part := by
  cases h with
  | intro _ parts => exact parts

theorem Keeps.found (h : graph.Keeps next) (hfound : (graph.find? key).isSome) :
    (next.find? key).isSome := by
  obtain ⟨id, hid⟩ := Option.isSome_iff_exists.mp hfound
  exact Option.isSome_of_eq_some (h key id hid)

theorem Holds.mono (h : graph.Holds e) (hkeeps : graph.Keeps next) : next.Holds e := by
  induction h with
  | intro found _ ih => exact .intro (hkeeps.found found) ih

/-- A choice of a default is registered with the comparison that decides it. -/
theorem Holds.coalesce {span : Span} {lhs rhs : Tree} (hlhs : graph.Holds lhs.expression)
    (hrhs : graph.Holds rhs.expression)
    (hnull : (graph.find? (Expression.literal .null).key).isSome)
    (hisNull : (graph.find?
      (Expression.binary (.compare .eq) lhs.expression (.literal .null)).key).isSome)
    (hfound : (graph.find? (Tree.coalesce span lhs rhs).expression.key).isSome) :
    graph.Holds (Tree.coalesce span lhs rhs).expression := by
  have hnull : graph.Holds (.literal .null) := .intro hnull (List.forall_mem_nil _)
  have hisNull : graph.Holds (.binary (.compare .eq) lhs.expression (.literal .null)) := by
    refine .intro hisNull ?_
    simp only [Expression.parts, List.forall_mem_cons]
    exact ⟨hlhs, hnull, List.forall_mem_nil _⟩
  refine .intro hfound ?_
  simp only [Tree.expression, Expression.parts, List.forall_mem_cons]
  exact ⟨hisNull, hrhs, hlhs, List.forall_mem_nil _⟩

/-- With a tree a graph has the nodes of its parts. -/
theorem Holds.tree_parts {tree : Tree} (h : graph.Holds tree.expression) :
    ∀ part ∈ tree.parts, graph.Holds part.expression := by
  intro part hpart
  cases tree with
  | group span inner =>
    cases List.mem_singleton.mp hpart
    exact h
  | call span target name args =>
    refine h.parts _ ?_
    show part.expression ∈ target.expression :: Tree.expressions args
    rw [Tree.expressions_eq_map, ← List.map_cons]
    exact List.mem_map_of_mem hpart
  | coalesce span lhs rhs =>
    refine h.parts _ ?_
    simp only [Tree.parts, List.mem_cons, List.not_mem_nil, or_false] at hpart
    obtain rfl | rfl := hpart
    · exact List.mem_cons_of_mem _ (List.mem_cons_of_mem _ List.mem_cons_self)
    · exact List.mem_cons_of_mem _ List.mem_cons_self
  | _ => exact h.parts _ (List.mem_map_of_mem (f := Tree.expression) hpart)

end Graph

/-! ## Registering -/

namespace GraphM

open Operation

variable {graph : Graph} {lhs rhs : Nat} {lhsKey rhsKey : String}

/-- The graph is still open, and the key leads to the node, which was there if the key led to one
before. -/
structure Gives (graph next : Graph) (key : String) (id : Nat) : Prop where
  keeps : graph.Keeps next
  isOpen : next.isSealed = false
  found : next.find? key = some id
  size_eq : (graph.find? key).isSome → next.size = graph.size

/-- An open graph takes every key. -/
theorem exists_run_register (hopen : graph.isSealed = false) (kind : Kind) {children : List Nat}
    {keys : List String} (hchildren : graph.FindsAll keys children) :
    ∃ id next, (register kind children).run.run graph = (.ok id, next) ∧
      Gives graph next (kind.key keys) id := by
  have hkeeps := Graph.allows_keeps.register kind children graph
  have hfound := finds_register_of_found kind hchildren
  obtain ⟨id, hid, hrun⟩ | ⟨hsealed, -⟩ | ⟨-, hnew, hrun⟩ := register_cases kind children graph
  · rw [hrun] at hkeeps
    exact ⟨id, graph, hrun, hkeeps, hopen, hfound _ _ hrun, fun _ => rfl⟩
  · cases hopen.symm.trans hsealed
  · rw [hrun] at hkeeps
    rw [hchildren.map_keyOf] at hnew
    refine ⟨_, _, hrun, hkeeps, ?_, hfound _ _ hrun, fun hold => ?_⟩
    · exact (congrArg Option.isSome Graph.imports_push.2).trans hopen
    · rw [hnew] at hold
      cases hold

theorem exists_run_symbol (hopen : graph.isSealed = false) (text type : String) :
    ∃ id next, (symbol text type).run.run graph = (.ok id, next) ∧ Gives graph next text id := by
  obtain ⟨id, next, hrun, hgives⟩ := exists_run_register hopen (.symbol text type) .nil
  have hkeeps := Graph.allows_keeps.declareType type id next
  refine ⟨id, next.modify id fun node => { node with declaredType := some type }, ?_, ?_⟩
  · unfold symbol
    rw [run_bind_of_run hrun]
    rfl
  · exact ⟨hgives.keeps.trans hkeeps, hgives.isOpen, hkeeps _ _ hgives.found,
      fun hold => (Graph.size_modify _ _).trans (hgives.size_eq hold)⟩

/-- The node of a default, and those of the choice that it stands for. -/
theorem exists_run_coalesce (hopen : graph.isSealed = false) (span : Span)
    (hlhs : graph.find? lhsKey = some lhs) (hrhs : graph.find? rhsKey = some rhs) :
    let isNullKey := (Kind.binary (.compare .eq)).key [lhsKey, "null"]
    let key := Kind.ternary.key [isNullKey, rhsKey, lhsKey]
    ∃ id next, (BinderM.coalesce lhs rhs span).run.run graph = (.ok id, next) ∧
      graph.Keeps next ∧ next.isSealed = false ∧ next.find? key = some id ∧
      (next.find? "null").isSome ∧ (next.find? isNullKey).isSome ∧
      ((graph.find? "null").isSome → (graph.find? isNullKey).isSome → (graph.find? key).isSome →
        next.size = graph.size) := by
  intro isNullKey key
  obtain ⟨null, graph₁, hnull, hgives₁⟩ := exists_run_symbol hopen "null" TypeName.object
  obtain ⟨isNull, graph₂, hisNull, hgives₂⟩ := exists_run_register hgives₁.isOpen
    (.binary (.compare .eq)) (.cons (hgives₁.keeps _ _ hlhs) (.cons hgives₁.found .nil))
  have hspans := (Graph.allows_keeps.setSpan graph₂ null span).trans
    (Graph.allows_keeps.setSpan _ isNull span)
  have hkeeps := (hgives₁.keeps.trans hgives₂.keeps).trans hspans
  have hopen' : ((graph₂.setSpan null span).setSpan isNull span).isSealed = false := hgives₂.isOpen
  obtain ⟨id, next, hrun, hgives⟩ := exists_run_register hopen' .ternary
    (.cons (hspans _ _ hgives₂.found) (.cons (hkeeps _ _ hrhs) (.cons (hkeeps _ _ hlhs) .nil)))
  refine ⟨id, next, ?_, hkeeps.trans hgives.keeps, hgives.isOpen, hgives.found, ?_, ?_, ?_⟩
  · unfold BinderM.coalesce BinderM.binary
    rw [run_bind_of_run hnull, run_bind_of_run hisNull]
    exact hrun
  · exact ((hgives₂.keeps.trans hspans).trans hgives.keeps).found
      (Option.isSome_of_eq_some hgives₁.found)
  · exact (hspans.trans hgives.keeps).found (Option.isSome_of_eq_some hgives₂.found)
  · intro hnullOld hisNullOld hold
    have hsize : next.size = graph₂.size :=
      (hgives.size_eq (hkeeps.found hold)).trans
        ((Graph.size_modify _ _).trans (Graph.size_modify _ _))
    rw [hsize, hgives₂.size_eq (hgives₁.keeps.found hisNullOld), hgives₁.size_eq hnullOld]

end GraphM

/-! ## Lowering -/

namespace BinderM

open Operation

variable {classes : ClassRegistry} {binder next : Binder} {tree : Tree} {trees : List Tree}

/-- The graph is still open and has the node of the expression and those of its parts; if it had
them before, then it has as many nodes as before. -/
structure Lowers (binder : Binder) (e : Expression) (id : Nat) (next : Binder) : Prop where
  keeps : binder.Keeps next
  isOpen : next.graph.isSealed = false
  found : next.graph.find? e.key = some id
  holds : next.graph.Holds e
  size_eq : binder.graph.Holds e → next.graph.size = binder.graph.size

theorem run_node {operation : GraphM Nat} {id : Nat} {graph : Graph} (span : Span)
    (h : operation.run.run binder.graph = (.ok id, graph)) :
    (node span operation).run.run binder =
      (.ok id, { binder with graph := graph.setSpan id span }) := by
  unfold node
  rw [run_bind_of_run (run_onGraph_of_run span h)]
  rfl

/-- A node over the nodes of its parts. -/
theorem exists_run_node {operation : GraphM Nat} {e : Expression} (span : Span)
    (hparts : ∀ part ∈ e.parts, binder.graph.Holds part)
    (h : ∃ id graph, operation.run.run binder.graph = (.ok id, graph) ∧
      GraphM.Gives binder.graph graph e.key id) :
    ∃ id next, (node span operation).run.run binder = (.ok id, next) ∧
      Lowers binder e id next := by
  obtain ⟨id, graph, hrun, hgives⟩ := h
  have hspan := Graph.allows_keeps.setSpan graph id span
  have hkeeps := hgives.keeps.trans hspan
  have hfound := hspan _ _ hgives.found
  refine ⟨id, _, run_node span hrun, ⟨hkeeps, rfl⟩, hgives.isOpen, hfound, ?_, fun hold => ?_⟩
  · exact .intro (Option.isSome_of_eq_some hfound) fun part hpart => (hparts part hpart).mono hkeeps
  · exact (Graph.size_modify _ _).trans (hgives.size_eq hold.found)

theorem exists_run_lowerName (hvariables : binder.FindsVariables)
    (hopen : binder.graph.isSealed = false) {name : String}
    (hdeclared : (binder.variableNode? name).isSome) (span : Span) :
    ∃ id next, (lowerName classes name span).run.run binder = (.ok id, next) ∧
      Lowers binder (.ident name) id next := by
  obtain ⟨id, hid⟩ := Option.isSome_iff_exists.mp hdeclared
  have hspan := Graph.allows_keeps.setSpan binder.graph id span
  have hfound := hspan _ _ (hvariables name id hid)
  refine ⟨id, { binder with graph := binder.graph.setSpan id span }, ?_, ⟨hspan, rfl⟩, hopen,
    hfound, .intro (Option.isSome_of_eq_some hfound) (List.forall_mem_nil _), fun _ => ?_⟩
  · unfold lowerName
    rw [run_bind, run_get]
    simp only [hid]
    rfl
  · exact Graph.size_modify _ _

/-- A tree over the nodes of its parts. -/
theorem exists_run_assemble {ids : List Nat} (hvariables : binder.FindsVariables)
    (hdeclared : binder.Declares tree.idents) (hopen : binder.graph.isSealed = false)
    (hids : binder.graph.FindsAll (Expression.keys (Tree.expressions tree.parts)) ids)
    (hparts : ∀ part ∈ tree.parts, binder.graph.Holds part.expression) :
    ∃ id next, (assemble classes tree ids).run.run binder = (.ok id, next) ∧
      Lowers binder tree.expression id next := by
  have hmap {trees : List Tree} (h : ∀ tree ∈ trees, binder.graph.Holds tree.expression) :
      ∀ part ∈ Tree.expressions trees, binder.graph.Holds part := by
    rw [Tree.expressions_eq_map]
    exact List.forall_mem_map.mpr h
  cases tree with
  | literal span value =>
    exact exists_run_node span (List.forall_mem_nil _) (GraphM.exists_run_symbol hopen _ _)
  | ident span name =>
    exact exists_run_lowerName hvariables hopen (hdeclared name (List.mem_singleton_self name)) span
  | coalesce span lhs rhs =>
    obtain _ | ⟨hlhs, _ | ⟨hrhs, _⟩⟩ := hids
    obtain ⟨id, graph, hrun, hkeeps, hopen', hfound, hnull, hisNull, hsize⟩ :=
      GraphM.exists_run_coalesce hopen span hlhs hrhs
    have hspan := Graph.allows_keeps.setSpan graph id span
    have hkeeps := hkeeps.trans hspan
    have hfound := hspan _ _ hfound
    have hlhs := (hparts lhs List.mem_cons_self).mono hkeeps
    have hrhs := (hparts rhs (List.mem_cons_of_mem _ List.mem_cons_self)).mono hkeeps
    refine ⟨id, _, run_node span hrun, ⟨hkeeps, rfl⟩, hopen', hfound, ?_, fun hold => ?_⟩
    · exact .coalesce hlhs hrhs (hspan.found hnull) (hspan.found hisNull)
        (Option.isSome_of_eq_some hfound)
    · have hisNull := hold.parts _ List.mem_cons_self
      have hnull := hisNull.parts _ (List.mem_cons_of_mem _ List.mem_cons_self)
      exact (Graph.size_modify _ _).trans (hsize hnull.found hisNull.found hold.found)
  | group span inner =>
    obtain _ | ⟨hinner, _⟩ := hids
    exact ⟨_, binder, rfl, .refl binder, hopen, hinner, hparts inner List.mem_cons_self,
      fun _ => rfl⟩
  | _ => exact exists_run_node _ (hmap hparts) (GraphM.exists_run_register hopen _ hids)

/-- Trees from left to right. -/
theorem exists_run_lowerAll
    (h : ∀ tree ∈ trees, ∀ binder : Binder, binder.FindsVariables → binder.Declares tree.idents →
      binder.graph.isSealed = false → ∃ id next,
        (lower classes tree).run.run binder = (.ok id, next) ∧
          Lowers binder tree.expression id next)
    (hvariables : binder.FindsVariables) (hdeclared : binder.Declares (Tree.identsAll trees))
    (hopen : binder.graph.isSealed = false) :
    ∃ ids next, (lowerAll classes trees).run.run binder = (.ok ids, next) ∧ binder.Keeps next ∧
      next.graph.isSealed = false ∧
      next.graph.FindsAll (Expression.keys (Tree.expressions trees)) ids ∧
      (∀ tree ∈ trees, next.graph.Holds tree.expression) ∧
      ((∀ tree ∈ trees, binder.graph.Holds tree.expression) →
        next.graph.size = binder.graph.size) := by
  induction trees generalizing binder with
  | nil => exact ⟨[], binder, rfl, .refl binder, hopen, .nil, nofun, fun _ => rfl⟩
  | cons tree trees ih =>
    obtain ⟨id, reached, htree, hlowers⟩ :=
      h tree List.mem_cons_self binder hvariables hdeclared.left hopen
    obtain ⟨ids, next, htrees, hkeeps, hopen', hids, hholds, hsize⟩ :=
      ih (fun tree htree => h tree (List.mem_cons_of_mem _ htree))
        (hvariables.mono hlowers.keeps) (hdeclared.right.mono hlowers.keeps) hlowers.isOpen
    refine ⟨id :: ids, next, ?_, hlowers.keeps.trans hkeeps, hopen',
      .cons (hkeeps.graph _ _ hlowers.found) hids, ?_, fun hold => ?_⟩
    · unfold lowerAll
      rw [run_bind_of_run htree, run_bind_of_run htrees]
      rfl
    · exact List.forall_mem_cons.mpr ⟨hlowers.holds.mono hkeeps.graph, hholds⟩
    · obtain ⟨hfirst, hrest⟩ := List.forall_mem_cons.mp hold
      rw [hsize fun tree htree => (hrest tree htree).mono hlowers.keeps.graph,
        hlowers.size_eq hfirst]

/-- While the graph is open, a tree over variables is lowered to the node with the key of its
expression; no node is added if the graph had those of the tree before. -/
theorem exists_run_lower (tree : Tree) (hvariables : binder.FindsVariables)
    (hdeclared : binder.Declares tree.idents) (hopen : binder.graph.isSealed = false) :
    ∃ id next, (lower classes tree).run.run binder = (.ok id, next) ∧
      Lowers binder tree.expression id next := by
  induction tree using Tree.partsInduction generalizing binder with
  | step tree ih =>
    obtain ⟨ids, reached, hparts, hkeeps, hopen', hids, hholds, hsize⟩ :=
      exists_run_lowerAll ih hvariables
        (fun name hname => hdeclared name (Tree.mem_idents_of_identsAll_parts hname)) hopen
    obtain ⟨id, next, hrun, hlowers⟩ := exists_run_assemble (hvariables.mono hkeeps)
      (hdeclared.mono hkeeps) hopen' hids hholds
    refine ⟨id, next, ?_, hkeeps.trans hlowers.keeps, hlowers.isOpen, hlowers.found, hlowers.holds,
      fun hold => ?_⟩
    · rw [run_lower_of_declares hdeclared, run_bind_of_run hparts]
      exact hrun
    · rw [hlowers.size_eq (hold.mono hkeeps.graph), hsize hold.tree_parts]

theorem lowers_of_run {id : Nat} (hvariables : binder.FindsVariables)
    (hdeclared : binder.Declares tree.idents) (hopen : binder.graph.isSealed = false)
    (hrun : (lower classes tree).run.run binder = (.ok id, next)) :
    Lowers binder tree.expression id next := by
  obtain ⟨_, _, hrun', hlowers⟩ := exists_run_lower tree hvariables hdeclared hopen
  cases hrun'.symm.trans hrun
  exact hlowers

end BinderM
end BindingPlan
