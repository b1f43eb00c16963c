import BindingPlan.Proofs.Binding.Covered
import BindingPlan.Proofs.Binding.Imported
import BindingPlan.Proofs.Graph.Filled

/-!
# Classes that are missing when a graph is sealed

A binding that succeeds gives types to all nodes that it has added. So behind bindings that succeed,
only variables and classes may lack types that no binding reads, and these alone can make the
sealing of the graph fail. Their classes are not found then.

Names of classes are dotted names here of which none goes on behind another one, and no import goes
on behind the name of a class. Then keys tell an access from the reference of a class; otherwise an
access may be taken for such a reference, and its receiver remains without a type.

Main results:

* `Call.IsDirect`, `Binder.Direct`: bindings that succeed, of trees without operators in front of
  receivers.
* `Call.filled_run`: behind such calls, only variables and classes lack types.
* `unknownClass_of_run_sealGraph`: why sealing the graph of such a binder may fail.
* `unknownMember_of_memberless`: an access that is taken for a class.
-/

namespace BindingPlan

open BindingPlan.Graph Operation

variable {classes : ClassRegistry} {binder next : Binder} {graph : Graph} {name type : String}

/-! ## Declarations -/

namespace GraphM

/-- What adding a leaf with its declared type adds is that leaf. -/
theorem added_push {kind : Kind} {key : String} {i : Nat} (hge : graph.size ≤ i)
    (hi : i < ((graph.push (.new kind key [])).modify graph.size
      fun node => { node with declaredType := some type }).size) :
    let declared := (graph.push (.new kind key [])).modify graph.size
      fun node => { node with declaredType := some type }
    (declared.node i).kind = kind ∧ (declared.node i).declaredType = some type := by
  rw [size_modify, size_push] at hi
  obtain rfl : i = graph.size := by omega
  dsimp only
  rw [modify_push_self rfl, node_push_self]
  exact ⟨rfl, rfl⟩

/-- What declaring a variable adds is the variable, and then it is declared. -/
theorem added_declareVariable {i : Nat} (hge : graph.size ≤ i)
    (hi : i < ((declareVariable name type).run.run graph).2.size) :
    let (outcome, declared) := (declareVariable name type).run.run graph
    outcome.isOk = true ∧ (declared.node i).kind = .identifier name ∧
      (declared.node i).declaredType = some type := by
  unfold declareVariable identifier at hi ⊢
  obtain ⟨id, -, hrun⟩ | ⟨-, hrun⟩ | ⟨hopen, -, hrun⟩ := register_cases (.identifier name) [] graph
  · refine absurd hi (Nat.not_lt_of_ge (Nat.le_trans (Nat.le_of_eq ?_) hge))
    rw [run_bind_of_run hrun]
    cases hsealed : graph.isSealed with
    | true => rw [run_ensureOpen_bind_of_isSealed hsealed]
    | false =>
      rw [run_bind_of_run (run_ensureOpen hsealed)]
      exact size_modify _ _
  · rw [run_bind, hrun] at hi
    exact absurd hi (Nat.not_lt_of_ge hge)
  · rw [run_bind_of_run hrun,
      run_bind_of_run (run_ensureOpen ((isSealed_push graph _).trans hopen))] at hi ⊢
    exact ⟨rfl, added_push hge hi⟩

/-- What importing a class adds is the reference of the class. -/
theorem added_addImport {wanted qualified : String} {i : Nat} (hge : graph.size ≤ i)
    (hi : i < ((addImport wanted qualified).run.run graph).2.size) :
    ∃ shortName, (((addImport wanted qualified).run.run graph).2.node i).kind =
      .classRef shortName qualified := by
  unfold addImport at hi ⊢
  cases hsealed : graph.isSealed with
  | true =>
    rw [run_ensureOpen_bind_of_isSealed hsealed] at hi
    exact absurd hi (Nat.not_lt_of_ge hge)
  | false =>
    rw [run_bind_of_run (run_ensureOpen hsealed), run_bind, run_get] at hi ⊢
    dsimp only at hi ⊢
    rw [run_bind, run_set] at hi ⊢
    dsimp only at hi ⊢
    generalize graph.imports.add wanted qualified = named at hi ⊢
    unfold classRef at hi ⊢
    obtain ⟨id, -, hrun⟩ | ⟨-, hrun⟩ | ⟨-, -, hrun⟩ :=
      register_cases (.classRef named.1 qualified) [] { graph with imports := named.2 }
    · rw [run_bind_of_run hrun] at hi
      exact absurd (size_modify id _ ▸ hi) (Nat.not_lt_of_ge hge)
    · rw [run_bind, hrun] at hi
      exact absurd hi (Nat.not_lt_of_ge hge)
    · rw [run_bind_of_run hrun] at hi ⊢
      exact ⟨named.1, (added_push hge hi).1⟩

end GraphM

/-- Variables stay variables when one is declared. -/
theorem Binder.isSome_variableNode?_addVariable (name type : String) {x : String}
    (h : (binder.variableNode? x).isSome) :
    ((binder.addVariable name type).2.variableNode? x).isSome := by
  unfold addVariable run
  generalize (GraphM.declareVariable name type).run.run binder.graph = outcome
  obtain ⟨_ | id, graph⟩ := outcome
  · exact h
  · rw [variableNode?_cons]
    split
    · rfl
    · exact h

/-- A variable that was declared is one of the binder. -/
theorem Binder.isSome_variableNode?_self
    (h : ((GraphM.declareVariable name type).run.run binder.graph).1.isOk = true) :
    ((binder.addVariable name type).2.variableNode? name).isSome := by
  unfold addVariable run
  generalize (GraphM.declareVariable name type).run.run binder.graph = outcome at h
  obtain ⟨_ | id, graph⟩ := outcome
  · cases h
  · rw [variableNode?_cons, if_pos rfl]
    rfl

/-! ## Calls -/

/-- If the source is that of a tree, then no receiver in it is an operator in front of an
operand. -/
def isDirectSource (source : String) : Bool :=
  (parse source).result.toOption.all Tree.isDirect

/-- Sources can name the variable that is declared, the class that is imported does not go on behind
another one, and the binding succeeds and its tree has no operator in front of a receiver. -/
def Call.IsDirect (classes : ClassRegistry) (binder : Binder) : Call → Prop
  | .addVariable name _ => IsName name.toList
  | .addImport _ qualified =>
    ∀ p ∈ classes.typeNames, ¬ p.toList ++ ['.'] <+: qualified.toList
  | .parse source => isDirectSource source = true ∧
      ((BinderM.bindSource classes source).run.run binder).1.isOk = true
  | .sealGraph | .plan => True

instance (classes : ClassRegistry) (binder : Binder) : DecidablePred (Call.IsDirect classes binder)
  | .addVariable name _ => inferInstanceAs (Decidable (IsName name.toList))
  | .addImport _ qualified => inferInstanceAs
      (Decidable (∀ p ∈ classes.typeNames, ¬ p.toList ++ ['.'] <+: qualified.toList))
  | .parse _ => inferInstanceAs (Decidable (_ ∧ _))
  | .sealGraph | .plan => inferInstanceAs (Decidable True)

/-- A binder behind such calls; sealing may fail. -/
inductive Binder.Direct (classes : ClassRegistry) : Binder → Prop where
  | empty : Direct classes .empty
  | call {binder : Binder} (direct : Direct classes binder) (call : Call)
      (isDirect : call.IsDirect classes binder) : Direct classes (call.run classes binder)

/-- Only variables of the binder and classes lack types. -/
abbrev Binder.Filled (classes : ClassRegistry) (binder : Binder) : Prop :=
  Graph.Filled (· ∈ classes.typeNames) (fun x => (binder.variableNode? x).isSome) binder.graph

section

variable (hapart : classes.Apart) (hdotted : ∀ name ∈ classes.typeNames, IsDotted name)

include hapart

/-- Requests that give types to what they add, or add variables and classes. -/
theorem Binder.Filled.grown (h : binder.Filled classes)
    (hgrown : Grown (.direct (· ∈ classes.typeNames) classes) binder.graph next.graph)
    (hdeclared : binder.graph.KeepsDeclared next.graph)
    (hvariables : ∀ x, (binder.variableNode? x).isSome → (next.variableNode? x).isSome)
    (hnew : ∀ i, binder.graph.size ≤ i → i < next.graph.size →
      (next.graph.node i).resolvedType = none →
      ∃ name, (next.graph.node i).StandsFor (fun x => (next.variableNode? x).isSome) name) :
    next.Filled classes :=
  h.mono (hgrown.steps Terms.refers_direct h.linked)
    (hgrown.traced hapart (covers_typeNames _ _) ⟨h.untouched, h.traced⟩) hdeclared hvariables hnew

theorem Binder.Filled.addVariable (h : binder.Filled classes) (hname : IsName name.toList)
    (type : String) : (binder.addVariable name type).2.Filled classes := by
  have hgraph := graph_addVariable name type binder
  refine h.grown hapart ?_ (relates_addVariable allows_keepsDeclared name type binder)
    (fun _ => isSome_variableNode?_addVariable name type) fun i hge hi _ => ?_
  · rw [hgraph]
    exact Grown.refl.request (.declareVariable name type) ⟨rfl, .identifier hname⟩
  · rw [hgraph] at hi ⊢
    obtain ⟨hok, hkind, htype⟩ := GraphM.added_declareVariable hge hi
    exact ⟨type, .ofVariable hkind htype (isSome_variableNode?_self hok)⟩

theorem Binder.Filled.addImport (h : binder.Filled classes) (wanted : String) {qualified : String}
    (hapart' : ∀ p ∈ classes.typeNames, ¬ p.toList ++ ['.'] <+: qualified.toList) :
    (binder.addImport wanted qualified).2.Filled classes := by
  refine h.grown hapart
    (Grown.refl.request (.addImport wanted qualified) fun _ => ⟨rfl, .classRef hapart'⟩)
    (allows_keepsDeclared.addImport wanted qualified binder.graph) (fun _ h => h)
    fun i hge hi _ => ?_
  obtain ⟨shortName, hkind⟩ := GraphM.added_addImport hge hi
  exact ⟨qualified, .ofClass hkind⟩

include hdotted

theorem Binder.Filled.bindSource (h : binder.Filled classes) (hfinds : binder.FindsVariables)
    {source : String} (hdirect : (Call.parse source).IsDirect classes binder) :
    ((BinderM.bindSource classes source).run.run binder).2.Filled classes := by
  obtain ⟨htree, hok⟩ := hdirect
  generalize hrun : (BinderM.bindSource classes source).run.run binder = outcome at hok ⊢
  obtain ⟨_ | root, next⟩ := outcome
  · cases hok
  have hdeclared : binder.graph.KeepsDeclared next.graph :=
    ((BinderM.follows_bindSource (allows_keepsDeclared.binding classes) source).of_run hrun).graph
  obtain ⟨tree, hparsed⟩ := BinderM.exists_tree_of_run_bindSource hrun
  obtain ⟨-, lowered, marked, _, classified, hlower, hmark, hclassify, rfl⟩ :=
    BinderM.exists_of_run_bindSource hparsed hrun
  unfold isDirectSource at htree
  rw [hparsed] at htree
  have hknown (name : String) (type : ClassType) (htype : classes.findClass name = .ok type) :
      type.name ∈ classes.typeNames ∧ IsDotted type.name :=
    have hmem := (covers_typeNames (fun _ => True) True).findClass htype
    ⟨hmem, hdotted _ hmem⟩
  obtain ⟨hfollows, hlowered⟩ := (BinderM.asks_lower_direct hknown hapart ⟨h.linked, hfinds⟩
    (isName_of_parse hparsed) htree).of_ok hlower
  have hclassified : Grown (.direct (· ∈ classes.typeNames) classes) lowered.graph classified := by
    have hok : ((GraphM.classify classes root).run.run marked).1.isOk = true := by
      rw [hclassify]
      rfl
    have hgrown : Grown (.direct (· ∈ classes.typeNames) classes) lowered.graph _ :=
      (Grown.refl.request (.bind root) trivial).request (.classify classes root)
        (by rw [Request.run, hmark]; exact ⟨rfl, .inr hok⟩)
    rwa [Request.run, Request.run, hmark, hclassify] at hgrown
  have hgrown := hfollows.graph.trans hclassified
  have hlinked := hfollows.graph.linked Terms.refers_direct h.linked
  -- the root has its type, and with it what was added in front of it
  have hsettles : lowered.graph.Settles classified :=
    ((GraphM.settles_bind root).of_run hmark).trans
      (((GraphM.admits_settles classes).classify root).of_run hclassify)
  have hroot : (classified.node root).resolvedType.isSome := by
    refine (GraphM.classified_of_run_classify ?_ hclassify).1
    exact Nat.lt_of_lt_of_le hlowered.properAt.spelledAt.1
      ((GraphM.settles_bind root).of_run hmark).size_le
  have hresolved (i : Nat) (hge : binder.graph.size ≤ i) (hi : i < classified.size) :
      (classified.node i).resolvedType.isSome := by
    rcases Nat.lt_or_ge i lowered.graph.size with hlt | hge'
    · refine hlowered.covers classified (hclassified.steps Terms.refers_direct hlinked)
        (hgrown.traced hapart (covers_typeNames _ _) ⟨h.untouched, h.traced⟩).2
        (hclassified.linked Terms.refers_direct hlinked) ?_ i hge hlt
      rintro _ hid
      rwa [List.mem_singleton.mp hid]
    · exact hsettles.resolved i hge' hi
  refine h.grown hapart hgrown hdeclared (fun x hx => ?_) fun i hge hi hnone => ?_
  · unfold variableNode? at hx ⊢
    rwa [hfollows.variableNodes]
  · exact absurd hnone (Option.isSome_iff_ne_none.mp (hresolved i hge hi))

/-- Behind such a call, only variables and classes lack types. -/
theorem Call.filled_run (call : Call) (hdirect : call.IsDirect classes binder)
    (h : binder.Filled classes) (hfinds : binder.FindsVariables) :
    (call.run classes binder).Filled classes := by
  cases call with
  | addVariable name type => exact h.addVariable hapart hdirect type
  | addImport wanted qualified => exact h.addImport hapart wanted hdirect
  | parse source => exact h.bindSource hapart hdotted hfinds hdirect
  | sealGraph =>
    have hguards := GraphM.guards_sealGraph
      (fun _ _ => (covers_typeNames (fun _ => True) True).findClass) binder.graph h rfl
    show Graph.Filled _ _ ((GraphM.sealGraph classes).run.run binder.graph).2
    generalize hrun : (GraphM.sealGraph classes).run.run binder.graph = outcome
    obtain ⟨e | _, next⟩ := outcome
    · exact (hguards.of_error hrun).1
    · exact (hguards.of_ok hrun).1
  | plan =>
    refine h.grown hapart (Grown.refl.request .plan trivial)
      (allows_keepsDeclared.plan binder.graph) (fun _ h => h) fun i hge hi hnone => ?_
    have hsome := (GraphM.settles_plan binder.graph).resolved i hge hi
    exact absurd hnone (Option.isSome_iff_ne_none.mp hsome)

/-- What holds of a binder behind bindings that succeed. -/
theorem Binder.Direct.filled (h : binder.Direct classes) :
    binder.Filled classes ∧ binder.FindsVariables ∧ binder.graph.InStep := by
  induction h with
  | empty =>
    have hfinds : Binder.empty.FindsVariables := fun _ _ h => by cases h
    exact ⟨filled_empty, hfinds, inStep_empty⟩
  | call _ call isDirect ih =>
    obtain ⟨hfilled, hfinds, hinStep⟩ := ih
    exact ⟨call.filled_run hapart hdotted isDirect hfilled hfinds, call.findsVariables_run hfinds,
      call.inStep_run hinStep⟩

/-- Behind bindings that succeed, an error of sealing about a node is that a class is not found. The
node is a declared variable that has this class as its type, or it is the reference of this class
and was named by an import. -/
theorem unknownClass_of_run_sealGraph (h : binder.Direct classes) {key : String}
    {span : Option Span} {cause : ResolveError}
    (hrun : (GraphM.sealGraph classes).run.run binder.graph =
      (.error (.resolution key span cause), graph)) :
    ∃ name, cause = .unknownClass name ∧
      ∃ i < graph.size, graph.keyOf i = key ∧ (graph.node i).span = span ∧
        ((∃ x, (graph.node i).kind = .identifier x ∧ (graph.node i).declaredType = some name ∧
            binder.variableNode? x = some i) ∨
          ∃ shortName, (graph.node i).kind = .classRef shortName name ∧
            graph.imports.get? shortName = some name) := by
  obtain ⟨hfilled, hfinds, hinStep⟩ := h.filled hapart hdotted
  have hguards := GraphM.guards_sealGraph
    (fun _ _ => (covers_typeNames (fun _ => True) True).findClass) binder.graph hfilled rfl
  obtain ⟨hnext, hnames⟩ := hguards.of_error hrun
  obtain ⟨name, hcause, i, hi, hkey, hspan, hnone, hname⟩ := hnames key span cause rfl
  refine ⟨name, hcause, i, hi, hkey, hspan, ?_⟩
  cases hname with
  | @ofVariable x kind declaredType isDeclared =>
    refine .inl ⟨x, kind, declaredType, ?_⟩
    -- the node of the variable is found by its name, which is the key of this one
    have hfresh := hnext.untouched.fresh i hnone
    have hx : graph.keyOf i = x := by
      rw [hfresh.key, kind]
      rfl
    obtain ⟨id, hid⟩ := Option.isSome_iff_exists.mp isDeclared
    have hfound := (allows_keeps.sealGraph classes).of_run hrun _ _ (hfinds x id hid)
    rw [hid, hnext.linked.eq_of_keyOf (Graph.find?_eq_some_iff.mp hfound).1 hi
      ((keyOf_of_find? hfound).trans hx.symm)]
  | @ofClass shortName kind =>
    refine .inr ⟨shortName, kind, ?_⟩
    have hsealed : Upholds InStep binder.graph graph :=
      ((admits_inStep classes).sealGraph fun _ state h => h.freeze (some state)).of_run hrun
    exact (hsealed hinStep).named kind

end

/-- An import and a variable of classes that are not there, and a binding that reads neither. -/
def missingClasses : List Call :=
  [.addImport "View" "app.View", .addVariable "view" "app.View"] ++ gaugeLimit

theorem unknownClass_of_run_sealGraph_missingClasses :
    let binder := Binder.after .gauge missingClasses
    let (outcome, graph) := (GraphM.sealGraph .gauge).run.run binder.graph
    outcome = .error (.resolution "static:app.View" none (.unknownClass "app.View")) ∧
      ∃ i < graph.size, graph.keyOf i = "static:app.View" ∧
        ((∃ x, (graph.node i).kind = .identifier x ∧ binder.variableNode? x = some i) ∨
          ∃ shortName, (graph.node i).kind = .classRef shortName "app.View" ∧
            graph.imports.get? shortName = some "app.View") := by
  intro binder
  have hbinder : binder.Direct .gauge :=
    (((Binder.Direct.empty.call (.addImport "View" "app.View") (by decide +kernel)).call
      (.addVariable "view" "app.View") (by decide +kernel)).call
      (.addVariable "gauge" "app.Gauge") (by decide +kernel)).call
      (.parse "gauge.LIMIT.level") (by decide +kernel)
  have hrun : ((GraphM.sealGraph .gauge).run.run binder.graph).1 =
      .error (.resolution "static:app.View" none (.unknownClass "app.View")) := by decide +kernel
  obtain ⟨name, hname, i, hi, hkey, -, hnode⟩ := unknownClass_of_run_sealGraph (by decide +kernel)
    (by decide +kernel) hbinder (Prod.ext hrun rfl)
  cases hname
  exact ⟨hrun, i, hi, hkey, hnode.imp_left fun ⟨x, hkind, _, hx⟩ => ⟨x, hkind, hx⟩⟩

/-- A class without members, and one that is named like an access to a member of a member of it. -/
def ClassRegistry.memberless : ClassRegistry :=
  (builtin.extend [ClassDef.bare "a", ClassDef.bare "a.B.C"]).1

/-- The access `A.B.C` is taken for the class, so `A.B` is not looked up when it is bound. Both
bindings succeed, and the sealing fails at a member that is not found. -/
theorem unknownMember_of_memberless :
    let binder := Binder.after .memberless [.parse "a.B.C", .addImport "A" "a"]
    let next := Call.run .memberless binder (.parse "A.B.C")
    (Call.parse "a.B.C").succeeds .memberless .empty = true ∧
      (Call.parse "A.B.C").succeeds .memberless binder = true ∧
      isDirectSource "a.B.C" = true ∧ isDirectSource "A.B.C" = true ∧
      (next.graph.node 2).kind = .field "B" false ∧
      ((GraphM.sealGraph .memberless).run.run next.graph).1 =
        .error (.resolution "static:a.B" (some ⟨0, 3⟩) (.unknownMember "a" "B")) := by
  decide +kernel

end BindingPlan
