import BindingPlan.Binding.Binder
import BindingPlan.Proofs.Graph.Found
import BindingPlan.Proofs.Key.Expression
import BindingPlan.Proofs.Tree.Parts

/-!
# The nodes of lowered trees

Lowering a tree registers its parts first, so that the children of each node are found by their
keys. Nothing that is registered between a part and the whole takes the part away again. So the node
of a tree over variables is found by the key of its expression.

Main results:

* `BinderM.follows_lower`, `BinderM.follows_bindSource`: lowering and binding keep what every
  operation on the graph keeps, such as found nodes.
* `BinderM.finds_lower`: the node of a tree over variables is found by the key of its expression.
-/

namespace BindingPlan

variable {α : Type} {classes : ClassRegistry}

/-! ## Names of variables -/

mutual

/-- The names in a tree that are no members. -/
def Tree.idents : Tree → List String
  | .literal _ _ => []
  | .ident _ name => [name]
  | .field _ receiver _ => receiver.idents
  | .call _ target _ args => target.idents ++ Tree.identsAll args
  | .unary _ _ operand => operand.idents
  | .binary _ _ lhs rhs => lhs.idents ++ rhs.idents
  | .ternary _ predicate ifTrue ifFalse => predicate.idents ++ (ifTrue.idents ++ ifFalse.idents)
  | .coalesce _ lhs rhs => lhs.idents ++ rhs.idents
  | .group _ inner => inner.idents

def Tree.identsAll : List Tree → List String
  | [] => []
  | tree :: trees => tree.idents ++ Tree.identsAll trees

end

theorem Tree.mem_identsAll_of_mem {tree : Tree} {trees : List Tree} {name : String}
    (htree : tree ∈ trees) (h : name ∈ tree.idents) : name ∈ Tree.identsAll trees := by
  induction htree with
  | head => exact List.mem_append_left _ h
  | tail _ _ ih => exact List.mem_append_right _ ih

theorem Tree.mem_idents_of_identsAll_parts {tree : Tree} {name : String}
    (h : name ∈ Tree.identsAll tree.parts) : name ∈ tree.idents := by
  cases tree with
  | literal | ident => cases h
  | _ => simpa [parts, identsAll, idents] using h

/-- A chain of names starts with one that is no member. -/
theorem Tree.exists_of_dottedNames? {tree : Tree} {names : List String}
    (h : tree.dottedNames? = some names) : ∃ root ∈ tree.idents, ∃ rest, names = root :: rest := by
  induction tree using Tree.dottedNames?.induct generalizing names with
  | case1 _ name =>
    cases h
    exact ⟨name, List.mem_singleton_self name, [], rfl⟩
  | case2 span receiver name ih =>
    obtain ⟨inner, hinner, rfl⟩ := Option.map_eq_some_iff.mp h
    obtain ⟨root, hroot, rest, rfl⟩ := ih hinner
    exact ⟨root, hroot, rest ++ [name.text], rfl⟩
  | case3 tree hident hfield =>
    unfold dottedNames? at h
    split at h
    · exact (hident _ _ rfl).elim
    · exact (hfield _ _ _ rfl).elim
    · cases h

/-! ## Binders -/

namespace Binder

variable {binder next last : Binder} {names more : List String}

/-- The later binder knows the same variables, and finds every node that this one finds. -/
structure Keeps (binder next : Binder) : Prop where
  graph : binder.graph.Keeps next.graph
  variableNodes : next.variableNodes = binder.variableNodes

theorem Keeps.refl (binder : Binder) : binder.Keeps binder :=
  ⟨.refl binder.graph, rfl⟩

theorem Keeps.trans (h : binder.Keeps next) (h' : next.Keeps last) : binder.Keeps last :=
  ⟨h.graph.trans h'.graph, h'.variableNodes.trans h.variableNodes⟩

instance : IsPreorder Binder Keeps where
  refl := .refl
  trans _ _ _ := .trans

/-- The relation holds between the graphs, and the variables stay. -/
structure Follows (relation : Graph → Graph → Prop) (binder next : Binder) : Prop where
  graph : relation binder.graph next.graph
  variableNodes : next.variableNodes = binder.variableNodes

instance {relation : Graph → Graph → Prop} [IsPreorder Graph relation] :
    IsPreorder Binder (Follows relation) where
  refl binder := ⟨refl_of relation binder.graph, rfl⟩
  trans _ _ _ h h' :=
    ⟨trans_of relation h.graph h'.graph, h'.variableNodes.trans h.variableNodes⟩

/-- The latest variable comes first. -/
theorem variableNode?_cons (graph : Graph) (nodes : List (String × Nat)) (name other : String)
    (id : Nat) : variableNode? ⟨graph, (name, id) :: nodes⟩ other =
      if other = name then some id else nodes.lookup other := by
  unfold variableNode?
  rw [List.lookup_cons]
  cases h : other == name with
  | true => exact (if_pos (beq_iff_eq.mp h)).symm
  | false => exact (if_neg (beq_eq_false_iff_ne.mp h)).symm

/-- The node of each variable is found by its name. -/
def FindsVariables (binder : Binder) : Prop :=
  ∀ name id, binder.variableNode? name = some id → binder.graph.find? name = some id

/-- All names are names of variables. -/
def Declares (binder : Binder) (names : List String) : Prop :=
  ∀ name ∈ names, (binder.variableNode? name).isSome

instance (binder : Binder) (names : List String) : Decidable (binder.Declares names) :=
  inferInstanceAs (Decidable (∀ name ∈ names, (binder.variableNode? name).isSome))

theorem FindsVariables.mono (h : binder.FindsVariables) (hkeeps : binder.Keeps next) :
    next.FindsVariables := by
  intro name id hid
  unfold variableNode? at hid
  rw [hkeeps.variableNodes] at hid
  exact hkeeps.graph name id (h name id hid)

theorem Declares.mono (h : binder.Declares names) (hkeeps : binder.Keeps next) :
    next.Declares names := by
  intro name hname
  unfold variableNode?
  rw [hkeeps.variableNodes]
  exact h name hname

theorem Declares.left (h : binder.Declares (names ++ more)) : binder.Declares names :=
  fun name hname => h name (List.mem_append_left more hname)

theorem Declares.right (h : binder.Declares (names ++ more)) : binder.Declares more :=
  fun name hname => h name (List.mem_append_right names hname)

end Binder

/-! ## Operations -/

namespace BinderM

open Operation

variable {binder next : Binder} {relation : Graph → Graph → Prop}

theorem run_get (binder : Binder) : (get : BinderM Binder).run.run binder = (.ok binder, binder) :=
  rfl

/-- The operation keeps the relation between graphs and the variables, whether it succeeds or
not. -/
abbrev Follows (relation : Graph → Graph → Prop) (operation : BinderM α) : Prop :=
  Operation.Keeps (Binder.Follows relation) operation

/-- An operation on the graph, and the error that it may end with. -/
theorem run_onGraph (span : Span) (operation : GraphM α) (binder : Binder) :
    (onGraph span operation).run.run binder =
      ((operation.run.run binder.graph).1.mapError (.ofGraphError · span),
        { binder with graph := (operation.run.run binder.graph).2 }) := by
  unfold onGraph Binder.run
  rw [run_bind, run_get]
  dsimp only
  generalize operation.run.run binder.graph = outcome
  obtain ⟨_ | value, graph⟩ := outcome <;> rfl

theorem run_onGraph_of_run {operation : GraphM α} {a : α} {graph : Graph} (span : Span)
    (h : operation.run.run binder.graph = (.ok a, graph)) :
    (onGraph span operation).run.run binder = (.ok a, { binder with graph := graph }) := by
  rw [run_onGraph, h]
  rfl

theorem exists_of_run_onGraph {operation : GraphM α} {a : α} {span : Span}
    (h : (onGraph span operation).run.run binder = (.ok a, next)) :
    ∃ graph, operation.run.run binder.graph = (.ok a, graph) ∧
      next = { binder with graph := graph } := by
  rw [run_onGraph] at h
  generalize operation.run.run binder.graph = outcome at h
  obtain ⟨_ | value, graph⟩ := outcome
  · cases h
  · cases h
    exact ⟨graph, rfl, rfl⟩

theorem follows_onGraph {operation : GraphM α} (span : Span)
    (h : Operation.Keeps relation operation) : Follows relation (onGraph span operation) := by
  intro binder
  rw [run_onGraph]
  exact ⟨h binder.graph, rfl⟩

section

variable [IsPreorder Graph relation] (h : Graph.AllowsBinding relation classes)

include h

omit [IsPreorder Graph relation] in
theorem follows_setSpan (id : Nat) (span : Span) : Follows relation (setSpan id span) :=
  fun binder => ⟨h.setSpan binder.graph id span, rfl⟩

theorem follows_classNamed? (qualified : String) (span : Span) :
    Follows relation (classNamed? classes qualified span) := by
  unfold classNamed?
  split
  · exact keeps_pure _
  · exact keeps_bind (follows_onGraph span (h.classRefFor _)) fun id =>
      keeps_bind (follows_setSpan h id span) fun _ => keeps_pure _

theorem follows_lowerName (name : String) (span : Span) :
    Follows relation (lowerName classes name span) := by
  refine keeps_bind keeps_get fun binder => ?_
  split
  · exact keeps_bind (follows_setSpan h _ span) fun _ => keeps_pure _
  · refine keeps_bind (keeps_bind keeps_get fun _ => keeps_pure _) fun qualified => ?_
    refine keeps_bind (follows_classNamed? h _ span) fun id => ?_
    split
    · exact keeps_pure _
    · exact keeps_throw _

theorem follows_classPath? (tree : Tree) : Follows relation (classPath? classes tree) := by
  unfold classPath?
  split
  · exact keeps_pure _
  · refine keeps_bind keeps_get fun binder =>
      keeps_bind (keeps_bind keeps_get fun _ => keeps_pure _) fun qualified => ?_
    split
    · exact keeps_pure _
    · exact follows_classNamed? h _ tree.span

theorem follows_node {operation : GraphM Nat} (span : Span)
    (hoperation : Operation.Keeps relation operation) : Follows relation (node span operation) :=
  keeps_bind (follows_onGraph span hoperation) fun id =>
    keeps_bind (follows_setSpan h id span) fun _ => keeps_pure _

theorem keeps_coalesce (lhs rhs : Nat) (span : Span) :
    Operation.Keeps relation (coalesce lhs rhs span) := by
  refine keeps_bind (h.symbol _ _) fun null => keeps_bind (h.register _ _ rfl) fun isNull => ?_
  refine keeps_bind (keeps_modify fun graph => ?_) fun _ => h.register _ _ rfl
  exact trans_of relation (h.setSpan graph null span) (h.setSpan _ isNull span)

end

/-! ## Lowering by parts -/

/-- The class that a field access refers to as a whole, if it does. -/
def wholeClass? (classes : ClassRegistry) : Tree → BinderM (Option Nat)
  | .field span receiver name => classPath? classes (.field span receiver name)
  | _ => return none

/-- The node of a tree over the nodes of its parts. -/
def assemble (classes : ClassRegistry) : Tree → List Nat → BinderM Nat
  | .literal span value, _ => node span (GraphM.symbol value.render value.typeName)
  | .ident span name, _ => lowerName classes name span
  | .field span _ name, ids => node span (GraphM.register (.field name.text false) ids)
  | .call span _ name _, ids => node span (GraphM.register (.call name.text) ids)
  | .unary span op _, ids => node span (GraphM.register (.unary op) ids)
  | .binary span op _ _, ids => node span (GraphM.register (.binary op) ids)
  | .ternary span _ _ _, ids => node span (GraphM.register .ternary ids)
  | .coalesce span _ _, ids => node span (coalesce (ids.getD 0 0) (ids.getD 1 0) span)
  | .group _ _, ids => return ids.headD 0

/-- Lowering registers the parts first, unless the whole is a class. -/
theorem lower_eq (tree : Tree) :
    lower classes tree = (do
      match ← wholeClass? classes tree with
      | some id => return id
      | none => lowerAll classes tree.parts >>= assemble classes tree) := by
  cases tree with
  | field span receiver name =>
    unfold lower wholeClass?
    refine bind_congr fun found => ?_
    cases found with
    | some id => rfl
    | none => simp only [Tree.parts, lowerAll, assemble, bind_assoc, pure_bind]
  | _ =>
    simp only [lower, wholeClass?, Tree.parts, lowerAll, assemble, binary, bind_assoc, pure_bind,
      List.getD_cons_zero, List.getD_cons_succ, List.headD_cons, bind_pure]

theorem lowerAll_append (before after : List Tree) :
    lowerAll classes (before ++ after) = (do
      let ids ← lowerAll classes before
      let more ← lowerAll classes after
      return ids ++ more) := by
  induction before with
  | nil => simp only [List.nil_append, lowerAll, pure_bind, bind_pure]
  | cons tree before ih =>
    simp only [List.cons_append, lowerAll, ih, bind_assoc, pure_bind]

section

variable [IsPreorder Graph relation] (h : Graph.AllowsBinding relation classes)

include h

theorem follows_wholeClass? (tree : Tree) : Follows relation (wholeClass? classes tree) := by
  unfold wholeClass?
  split
  · exact follows_classPath? h _
  · exact keeps_pure _

theorem follows_assemble (tree : Tree) (ids : List Nat) :
    Follows relation (assemble classes tree ids) := by
  cases tree with
  | literal span value => exact follows_node h span (h.symbol _ _)
  | ident span name => exact follows_lowerName h name span
  | coalesce span lhs rhs => exact follows_node h span (keeps_coalesce h _ _ span)
  | group span inner => exact keeps_pure _
  | _ => exact follows_node h _ (h.register _ _ rfl)

omit h in
theorem follows_lowerAll_of {trees : List Tree}
    (hparts : ∀ tree ∈ trees, Follows relation (lower classes tree)) :
    Follows relation (lowerAll classes trees) := by
  induction trees with
  | nil => exact keeps_pure _
  | cons tree trees ih =>
    refine keeps_bind (hparts tree List.mem_cons_self) fun id => ?_
    refine keeps_bind (ih fun tree htree => hparts tree (List.mem_cons_of_mem _ htree))
      fun ids => ?_
    exact keeps_pure _

theorem follows_lower (tree : Tree) : Follows relation (lower classes tree) := by
  induction tree using Tree.partsInduction with
  | step tree ih =>
    rw [lower_eq]
    refine keeps_bind (follows_wholeClass? h tree) fun found => ?_
    split
    · exact keeps_pure _
    · exact keeps_bind (follows_lowerAll_of ih) fun ids => follows_assemble h tree ids

theorem follows_lowerAll (trees : List Tree) : Follows relation (lowerAll classes trees) :=
  follows_lowerAll_of fun tree _ => follows_lower h tree

/-- Marking and classifying the root of a tree. -/
theorem follows_finish (span : Span) (root : Nat) : Follows relation (do
    onGraph span (GraphM.bind root)
    let _ ← onGraph span (GraphM.classify classes root)
    return root) :=
  keeps_bind (follows_onGraph span (h.bind root)) fun _ =>
    keeps_bind (follows_onGraph span (h.classify root)) fun _ => keeps_pure _

theorem follows_bindTree (tree : Tree) : Follows relation (bindTree classes tree) :=
  keeps_bind (follows_lower h tree) (follows_finish h tree.span)

theorem follows_bindSource (source : String) : Follows relation (bindSource classes source) := by
  unfold bindSource
  dsimp only
  split
  · exact keeps_throw _
  · exact keeps_throw _
  · exact follows_bindTree h _

end

/-! ## Bound sources -/

theorem exists_tree_of_run_bindSource {source : String} {root : Nat}
    (hrun : (bindSource classes source).run.run binder = (.ok root, next)) :
    ∃ tree, (parse source).result = .ok tree := by
  unfold bindSource at hrun
  dsimp only at hrun
  split at hrun
  · cases hrun
  · cases hrun
  · next tree _ hparsed => exact ⟨tree, hparsed⟩

/-- A source that was bound is its tree, lowered, marked and classified. -/
theorem exists_of_run_bindSource {source : String} {tree : Tree} {root : Nat}
    (hparsed : (parse source).result = .ok tree)
    (hrun : (bindSource classes source).run.run binder = (.ok root, next)) :
    bindSource classes source = bindTree classes tree ∧ ∃ reached marked dynamic classified,
      (lower classes tree).run.run binder = (.ok root, reached) ∧
      (GraphM.bind root).run.run reached.graph = (.ok ⟨⟩, marked) ∧
      (GraphM.classify classes root).run.run marked = (.ok dynamic, classified) ∧
      next = { reached with graph := classified } := by
  unfold bindSource at hrun ⊢
  dsimp only at hrun ⊢
  rw [hparsed] at hrun ⊢
  split at hrun
  · cases hrun
  · next heq =>
    cases heq
  · next heq =>
    cases heq
    obtain ⟨id, reached, hlower, hrun⟩ := exists_of_run_bind hrun
    obtain ⟨_, _, hmarked, hrun⟩ := exists_of_run_bind hrun
    obtain ⟨marked, hmark, rfl⟩ := exists_of_run_onGraph hmarked
    obtain ⟨dynamic, _, hclassified, hrun⟩ := exists_of_run_bind hrun
    obtain ⟨classified, hclassify, rfl⟩ := exists_of_run_onGraph hclassified
    cases hrun
    exact ⟨rfl, reached, marked, dynamic, classified, hlower, hmark, hclassify, rfl⟩

/-! ## Found nodes -/

/-- The operation keeps found nodes and variables, whether it succeeds or not. -/
abbrev Keeps (operation : BinderM α) : Prop :=
  Operation.Keeps Binder.Keeps operation

theorem Follows.keeps {operation : BinderM α} (h : Follows Graph.Keeps operation) :
    Keeps operation :=
  fun binder => ⟨(h binder).graph, (h binder).variableNodes⟩

theorem keeps_setSpan (id : Nat) (span : Span) : Keeps (setSpan id span) :=
  (follows_setSpan (Graph.allows_keeps.binding ⟨[]⟩) id span).keeps

theorem keeps_wholeClass? (tree : Tree) : Keeps (wholeClass? classes tree) :=
  (follows_wholeClass? (Graph.allows_keeps.binding classes) tree).keeps

theorem keeps_assemble (tree : Tree) (ids : List Nat) : Keeps (assemble classes tree ids) :=
  (follows_assemble (Graph.allows_keeps.binding classes) tree ids).keeps

theorem keeps_lower (tree : Tree) : Keeps (lower classes tree) :=
  (follows_lower (Graph.allows_keeps.binding classes) tree).keeps

theorem keeps_lowerAll (trees : List Tree) : Keeps (lowerAll classes trees) :=
  (follows_lowerAll (Graph.allows_keeps.binding classes) trees).keeps

theorem keeps_finish (span : Span) (root : Nat) : Keeps (do
    onGraph span (GraphM.bind root)
    let _ ← onGraph span (GraphM.classify classes root)
    return root) :=
  (follows_finish (Graph.allows_keeps.binding classes) span root).keeps

theorem keeps_bindSource (source : String) : Keeps (bindSource classes source) :=
  (follows_bindSource (Graph.allows_keeps.binding classes) source).keeps

/-! ## Keys of lowered trees -/

/-- Whenever the operation gives a node, the key leads to that node afterwards. -/
def Finds (operation : BinderM Nat) (binder : Binder) (key : String) : Prop :=
  ∀ id next, operation.run.run binder = (.ok id, next) → next.graph.find? key = some id

theorem finds_node {operation : GraphM Nat} {key : String} (span : Span)
    (h : operation.Finds binder.graph key) : Finds (node span operation) binder key := by
  intro id next hrun
  obtain ⟨found, reached, hgraph, hrun⟩ := exists_of_run_bind hrun
  obtain ⟨_, _, hspan, hrun⟩ := exists_of_run_bind hrun
  cases hrun
  obtain ⟨graph, hfound, rfl⟩ := exists_of_run_onGraph hgraph
  exact ((keeps_setSpan id span).of_run hspan).graph key id (h id graph hfound)

theorem finds_lowerName (name : String) (span : Span) (hvariables : binder.FindsVariables)
    (hdeclared : (binder.variableNode? name).isSome) :
    Finds (lowerName classes name span) binder name := by
  intro id next hrun
  obtain ⟨declared, hnode⟩ := Option.isSome_iff_exists.mp hdeclared
  unfold lowerName at hrun
  rw [run_bind, run_get] at hrun
  simp only [hnode] at hrun
  obtain ⟨_, _, hspan, hrun⟩ := exists_of_run_bind hrun
  cases hrun
  exact ((keeps_setSpan _ span).of_run hspan).graph name _ (hvariables name _ hnode)

theorem finds_coalesce {lhs rhs : Nat} {graph : Graph} {lhsKey rhsKey : String} (span : Span)
    (hlhs : graph.find? lhsKey = some lhs) (hrhs : graph.find? rhsKey = some rhs) :
    (coalesce lhs rhs span).Finds graph
      (Kind.ternary.key [(Kind.binary (.compare .eq)).key [lhsKey, "null"], rhsKey, lhsKey]) := by
  intro id next hrun
  obtain ⟨null, graph₁, hnull, hrun⟩ := exists_of_run_bind hrun
  obtain ⟨isNull, graph₂, hisNull, hrun⟩ := exists_of_run_bind hrun
  obtain ⟨_, graph₃, hspans, hrun⟩ := exists_of_run_bind hrun
  have hkeeps₁ := (Graph.allows_keeps.symbol _ _).of_run hnull
  have hkeeps₂ := (Graph.allows_keeps.register _ _).of_run hisNull
  have hkeeps₃ : graph₂.Keeps graph₃ := by
    cases hspans
    exact (Graph.allows_keeps.setSpan _ null span).trans (Graph.allows_keeps.setSpan _ isNull span)
  have hisNull : graph₂.find? ((Kind.binary (.compare .eq)).key [lhsKey, "null"]) = some isNull :=
    GraphM.finds_register_of_found _
      (.cons (hkeeps₁ _ _ hlhs) (.cons (GraphM.finds_symbol _ _ _ _ _ hnull) .nil)) _ _ hisNull
  have hkeeps := (hkeeps₁.trans hkeeps₂).trans hkeeps₃
  exact GraphM.finds_register_of_found _
    (.cons (hkeeps₃ _ _ hisNull) (.cons (hkeeps _ _ hrhs) (.cons (hkeeps _ _ hlhs) .nil))) _ _ hrun

/-- A node over nodes that are found by the keys of the parts is found by the key of the whole. -/
theorem finds_assemble (tree : Tree) {ids : List Nat} (hvariables : binder.FindsVariables)
    (hdeclared : binder.Declares tree.idents)
    (hids : binder.graph.FindsAll (Expression.keys (Tree.expressions tree.parts)) ids) :
    Finds (assemble classes tree ids) binder tree.expression.key := by
  cases tree with
  | literal span value => exact finds_node span (GraphM.finds_symbol _ _ _)
  | ident span name =>
    exact finds_lowerName name span hvariables (hdeclared name (List.mem_singleton_self name))
  | coalesce span lhs rhs =>
    obtain _ | ⟨hlhs, _ | ⟨hrhs, _⟩⟩ := hids
    exact finds_node span (finds_coalesce span hlhs hrhs)
  | group span inner =>
    obtain _ | ⟨hinner, _⟩ := hids
    intro id next hrun
    cases hrun
    exact hinner
  | _ => exact finds_node _ (GraphM.finds_register_of_found _ hids)

/-- A tree over variables is no class as a whole. -/
theorem run_wholeClass?_of_declares {tree : Tree} (h : binder.Declares tree.idents) :
    (wholeClass? classes tree).run.run binder = (.ok none, binder) := by
  unfold wholeClass?
  split
  · next span receiver name =>
    unfold classPath?
    split
    · rfl
    · next names hnames =>
      obtain ⟨root, hroot, rest, rfl⟩ := Tree.exists_of_dottedNames? hnames
      rw [run_bind, run_get]
      dsimp only
      rw [run_bind]
      show ((if _ then _ else _ : BinderM (Option Nat)).run.run binder) = _
      rw [if_pos]
      · rfl
      · rw [List.headD_cons, h root hroot]
        rfl
  · rfl

theorem run_lower_of_declares {tree : Tree} (h : binder.Declares tree.idents) :
    (lower classes tree).run.run binder =
      (lowerAll classes tree.parts >>= assemble classes tree).run.run binder := by
  rw [lower_eq, run_bind, run_wholeClass?_of_declares h]

theorem finds_lowerAll {trees : List Tree} {ids : List Nat}
    (h : ∀ tree ∈ trees, ∀ binder : Binder, binder.FindsVariables → binder.Declares tree.idents →
      Finds (lower classes tree) binder tree.expression.key)
    (hvariables : binder.FindsVariables) (hdeclared : binder.Declares (Tree.identsAll trees))
    (hrun : (lowerAll classes trees).run.run binder = (.ok ids, next)) :
    next.graph.FindsAll (Expression.keys (Tree.expressions trees)) ids := by
  induction trees generalizing binder ids with
  | nil =>
    cases hrun
    exact .nil
  | cons tree trees ih =>
    obtain ⟨id, reached, htree, hrun⟩ := exists_of_run_bind hrun
    obtain ⟨ids, _, htrees, hrun⟩ := exists_of_run_bind hrun
    cases hrun
    have hkeeps := (keeps_lower tree).of_run htree
    have hkeeps' := (keeps_lowerAll _).of_run htrees
    have hid := h tree List.mem_cons_self binder hvariables hdeclared.left id reached htree
    refine .cons (hkeeps'.graph _ _ hid) ?_
    exact ih (fun tree htree => h tree (List.mem_cons_of_mem _ htree)) (hvariables.mono hkeeps)
      (hdeclared.right.mono hkeeps) htrees

/-- The node of a tree over variables is found by the key of its expression. -/
theorem finds_lower (tree : Tree) (hvariables : binder.FindsVariables)
    (hdeclared : binder.Declares tree.idents) :
    Finds (lower classes tree) binder tree.expression.key := by
  induction tree using Tree.partsInduction generalizing binder with
  | step tree ih =>
    intro id next hrun
    rw [run_lower_of_declares hdeclared] at hrun
    obtain ⟨ids, reached, hparts, hrun⟩ := exists_of_run_bind hrun
    -- whatever the parts register, variables are still found behind them
    have hkeeps := (keeps_lowerAll _).of_run hparts
    refine finds_assemble tree (hvariables.mono hkeeps) (hdeclared.mono hkeeps) ?_ id next hrun
    refine finds_lowerAll (fun part hpart binder => ih part hpart) hvariables ?_ hparts
    intro name hname
    exact hdeclared name (Tree.mem_idents_of_identsAll_parts hname)

end BinderM
end BindingPlan
