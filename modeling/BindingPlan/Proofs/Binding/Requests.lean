import BindingPlan.Proofs.Binding.Acyclic
import BindingPlan.Proofs.Graph.Grown

/-!
# Bindings as requests

A binder registers expressions over nodes of expressions, refers to classes that it finds, marks and
classifies the roots of its bindings, and notes where nodes were seen. So its graph grows by
requests, and by those only that are made of what sources can say.

Main results:

* `Graph.Terms.Serves`: what binding a source asks for.
* `BinderM.asks_bindSource`: binding a source makes such requests, whether it succeeds or not.
* `Binder.grown_after`: the graph of a binder grows by requests after every history.
-/

namespace BindingPlan

open BindingPlan.Graph

variable {α β : Type} {terms : Terms} {known : String → Prop} {classes : ClassRegistry}

/-- What binding a source asks for: literals, expressions over nodes with keys of expressions,
classes that are found, and look-ups in the registry. -/
structure Graph.Terms.Serves (terms : Terms) (classes : ClassRegistry) (known : String → Prop) :
    Prop where
  literal : ∀ value : Literal, terms.leaf (.symbol value.render value.typeName)
  composed : ∀ graph kind children, kind.Composes children.length →
    (∀ child ∈ children, graph.SpelledAt known child) → terms.composed graph kind children
  findClass : ∀ name type, classes.findClass name = .ok type → terms.type type ∧ known type.name
  registry : terms.registry classes
  refers : terms.Refers

/-! ## Operations on graphs -/

namespace GraphM

open Operation

variable {graph next : Graph} {R : α → Graph → Prop} {gives : β → Graph → Prop}

/-- The operation makes requests only, unless it fails where it may not, and gives only results as
said. -/
def Asks (terms : Terms) (operation : GraphM α) (graph : Graph) (R : α → Graph → Prop) : Prop :=
  Ensures operation graph (fun a next => Grown terms graph next ∧ R a next)
    fun _ next => terms.fails → Grown terms graph next

theorem asks_bind {x : GraphM α} {f : α → GraphM β} (hx : Asks terms x graph R)
    (hf : ∀ a next, Grown terms graph next → R a next → Asks terms (f a) next gives) :
    Asks terms (x >>= f) graph gives := by
  refine ensures_bind hx ?_
  rintro a next ⟨hgrown, ha⟩
  exact (hf a next hgrown ha).imp (fun _ _ h => ⟨hgrown.trans h.1, h.2⟩) fun _ _ h hfails =>
    hgrown.trans (h hfails)

/-- An operation that is a request, which may be made if it succeeds or may fail. -/
theorem asks_request {operation : GraphM α} (request : Request)
    (hpermits : terms.fails ∨ (operation.run.run graph).1.isOk = true →
      terms.Permits graph request)
    (hrequest : (operation.run.run graph).2 = request.run graph)
    (hR : ∀ a next, operation.run.run graph = (.ok a, next) → R a next) :
    Asks terms operation graph R := by
  have hgrown (h : terms.fails ∨ (operation.run.run graph).1.isOk = true) :
      Grown terms graph (operation.run.run graph).2 :=
    hrequest ▸ Grown.refl.request request (hpermits h)
  refine ensures_of_run (fun a next hrun => ⟨?_, hR a next hrun⟩) fun e next hrun hfails => ?_
  · rw [hrun] at hgrown
    exact hgrown (.inr rfl)
  · rw [hrun] at hgrown
    exact hgrown (.inl hfails)

variable (hserves : terms.Serves classes known)

include hserves

theorem asks_register {kind : Kind} {ids : List Nat} (hcomposes : kind.Composes ids.length)
    (hids : ∀ id ∈ ids, graph.SpelledAt known id) :
    Asks terms (register kind ids) graph fun id next => next.SpelledAt known id := by
  refine asks_request (.register kind ids)
    (fun _ => .inr (hserves.composed graph kind ids hcomposes hids)) rfl fun id next hrun => ?_
  refine spelledAt_of_find? (finds_register kind ids graph id next hrun)
    (Kind.Composes.composed ?_ ?_).spelled
  · rwa [List.length_map]
  · exact List.forall_mem_map.mpr fun id hid => (hids id hid).2

theorem asks_symbol (value : Literal) (graph : Graph) :
    Asks terms (symbol value.render value.typeName) graph fun id next =>
      next.SpelledAt known id := by
  refine asks_request (.symbol value.render value.typeName) (fun _ => hserves.literal value) rfl
    fun id next hrun => spelledAt_of_find? (finds_symbol _ _ graph id next hrun) ?_
  exact Expression.key_ofLiteral value ▸ .atom (Expression.isAtom_ofLiteral value)

theorem asks_classRefFor {name : String} {type : ClassType}
    (htype : classes.findClass name = .ok type) :
    Asks terms (classRefFor type) graph fun id next => next.SpelledAt known id := by
  obtain ⟨hpermits, hknown⟩ := hserves.findClass name type htype
  refine asks_request (.classRefFor type) (fun _ => hpermits) rfl fun id next hrun => ?_
  refine spelledAt_of_find? (finds_classRefFor type graph id next hrun) ?_
  rw [Kind.classKey, String.toList_append]
  exact .ref hknown

end GraphM

/-! ## Binders -/

/-- Nodes keep their keys. -/
theorem Graph.SpelledAt.grown {graph next : Graph} {id : Nat} (h : graph.SpelledAt known id)
    (hgrown : Grown terms graph next) (hrefers : terms.Refers) (hlinked : graph.Linked) :
    next.SpelledAt known id :=
  h.steps (hgrown.steps hrefers hlinked)

theorem Graph.SpelledAt.setSpan {graph : Graph} {id : Nat} (h : graph.SpelledAt known id)
    (seen : Nat) (span : Span) : (graph.setSpan seen span).SpelledAt known id := by
  have hsteps : (Rules.any fun _ => True).Steps graph (graph.setSpan seen span) :=
    BinderM.steps_setSpan graph seen trivial
  exact h.steps hsteps

namespace Binder

/-- Links are in order, and variables that sources can name have keys of expressions. -/
structure Reads (known : String → Prop) (binder : Binder) : Prop where
  linked : binder.graph.Linked
  named : ∀ name id, IsName name.toList → binder.variableNode? name = some id →
    binder.graph.SpelledAt known id

theorem reads_empty : Reads known .empty :=
  ⟨linked_empty, fun _ _ _ hnode => by cases hnode⟩

theorem Reads.follows {binder next : Binder} (h : binder.Reads known)
    (hfollows : binder.Follows (Grown terms) next) (hrefers : terms.Refers) : next.Reads known where
  linked := hfollows.graph.linked hrefers h.linked
  named := by
    intro name id hname hid
    unfold variableNode? at hid
    rw [hfollows.variableNodes] at hid
    exact (h.named name id hname hid).grown hfollows.graph hrefers h.linked

end Binder

namespace BinderM

open Operation

variable {binder next : Binder} {x : BinderM α} {f : α → BinderM β} {R : α → Graph → Prop}
  {gives : β → Graph → Prop}

/-- The operation makes requests only, unless it fails where it may not, and gives only results as
said. -/
def Asks (terms : Terms) (operation : BinderM α) (binder : Binder) (R : α → Graph → Prop) : Prop :=
  Ensures operation binder (fun a next => binder.Follows (Grown terms) next ∧ R a next.graph)
    fun _ next => terms.fails → binder.Follows (Grown terms) next

theorem asks_pure {a : α} (h : R a binder.graph) : Asks terms (pure a) binder R :=
  ensures_pure ⟨refl_of (Binder.Follows (Grown terms)) binder, h⟩

theorem asks_throw (d : Diagnostic) : Asks terms (throw d) binder R :=
  ensures_throw fun _ => refl_of (Binder.Follows (Grown terms)) binder

theorem asks_bind (hx : Asks terms x binder R)
    (hf : ∀ a next, binder.Follows (Grown terms) next → R a next.graph →
      Asks terms (f a) next gives) : Asks terms (x >>= f) binder gives := by
  refine ensures_bind hx ?_
  rintro a next ⟨hfollows, ha⟩
  exact (hf a next hfollows ha).imp (fun _ _ h => ⟨trans_of _ hfollows h.1, h.2⟩)
    fun _ _ h hfails => trans_of _ hfollows (h hfails)

theorem asks_get_bind {f : Binder → BinderM β} (h : Asks terms (f binder) binder gives) :
    Asks terms (get >>= f) binder gives := by
  unfold Asks Ensures at h ⊢
  rw [run_bind, run_get]
  exact h

theorem Asks.follows (h : Asks terms x binder R)
    (hok : terms.fails ∨ (x.run.run binder).1.isOk = true) :
    binder.Follows (Grown terms) (x.run.run binder).2 := by
  generalize hrun : x.run.run binder = outcome at hok
  obtain ⟨_ | a, next⟩ := outcome
  · exact h.of_error hrun (hok.resolve_right Bool.false_ne_true)
  · exact (h.of_ok hrun).1

theorem asks_onGraph (span : Span) {operation : GraphM α}
    (h : GraphM.Asks terms operation binder.graph R) :
    Asks terms (onGraph span operation) binder R := by
  unfold GraphM.Asks Ensures at h
  unfold Asks Ensures
  rw [run_onGraph]
  generalize operation.run.run binder.graph = outcome at h
  obtain ⟨e | a, graph⟩ := outcome
  · exact fun hfails => ⟨h hfails, rfl⟩
  · exact ⟨⟨h.1, rfl⟩, h.2⟩

/-- A node that was given is seen at a span. -/
theorem asks_seen {S : Graph → Prop} {id : Nat} (span : Span)
    (h : S (binder.graph.setSpan id span)) :
    Asks terms (setSpan id span) binder fun _ graph => S graph :=
  ensures_modify ⟨⟨.setSpan .refl id span, rfl⟩, h⟩

theorem asks_node {R : Nat → Graph → Prop} (span : Span) {operation : GraphM Nat}
    (hseen : ∀ id graph, R id graph → R id (graph.setSpan id span))
    (h : GraphM.Asks terms operation binder.graph R) : Asks terms (node span operation) binder R :=
  asks_bind (asks_onGraph span h) fun id _ _ hid =>
    asks_bind (asks_seen span (hseen id _ hid)) fun _ _ _ hid => asks_pure hid

section

variable (hserves : terms.Serves classes known) (hreads : binder.Reads known)

include hserves

omit hreads in
theorem asks_classNamed? (span : Span) (qualified : String) :
    Asks terms (classNamed? classes qualified span) binder fun found graph =>
      ∀ id, found = some id → graph.SpelledAt known id := by
  unfold classNamed?
  split
  · exact asks_pure nofun
  · next type htype =>
    refine asks_bind (asks_onGraph span (GraphM.asks_classRefFor hserves htype))
      fun id next _ hid => ?_
    refine asks_bind (asks_seen (S := fun graph => graph.SpelledAt known id) span
      (hid.setSpan id span)) fun _ _ _ hid => asks_pure ?_
    rintro _ ⟨⟩
    exact hid

include hreads

theorem asks_lowerName (span : Span) {name : String} (hname : IsName name.toList) :
    Asks terms (lowerName classes name span) binder fun id graph => graph.SpelledAt known id := by
  refine asks_get_bind ?_
  split
  · next id hid =>
    have hid := hreads.named name id hname hid
    exact asks_bind (asks_seen (S := fun graph => graph.SpelledAt known id) span
      (hid.setSpan id span)) fun _ _ _ hid => asks_pure hid
  · refine asks_get_bind (asks_bind (asks_classNamed? hserves span _)
      fun found next _ hfound => ?_)
    split
    · exact asks_pure (hfound _ rfl)
    · exact asks_throw _

omit hreads in
theorem asks_wholeClass? (tree : Tree) :
    Asks terms (wholeClass? classes tree) binder fun found graph =>
      ∀ id, found = some id → graph.SpelledAt known id := by
  unfold wholeClass?
  split
  · unfold classPath?
    split
    · exact asks_pure nofun
    · refine asks_get_bind (asks_get_bind ?_)
      split
      · exact asks_pure nofun
      · exact asks_classNamed? hserves _ _
  · exact asks_pure nofun

omit hreads in
theorem asks_coalesce (span : Span) {lhs rhs : Nat} {graph : Graph} (hlinked : graph.Linked)
    (hlhs : graph.SpelledAt known lhs) (hrhs : graph.SpelledAt known rhs) :
    GraphM.Asks terms (coalesce lhs rhs span) graph fun id next => next.SpelledAt known id := by
  have hrefers := hserves.refers
  refine GraphM.asks_bind (GraphM.asks_symbol hserves .null graph) fun null next hnull hid => ?_
  have hlhs' := hlhs.grown hnull hrefers hlinked
  refine GraphM.asks_bind (GraphM.asks_register hserves (.binary _) ?_)
    fun isNull last hcompare hisNull => ?_
  · simp only [List.forall_mem_cons]
    exact ⟨hlhs', hid, nofun⟩
  have hspans : Grown terms last ((last.setSpan null span).setSpan isNull span) :=
    .setSpan (.setSpan .refl null span) isNull span
  refine GraphM.asks_bind (R := fun _ reached => Grown terms last reached)
    (ensures_modify ⟨hspans, hspans⟩) fun _ reached hmore _ => ?_
  have hlinked' := hnull.linked hrefers hlinked
  have hlast := hcompare.linked hrefers hlinked'
  refine GraphM.asks_register hserves .ternary ?_
  have hall := hcompare.trans hmore
  simp only [List.forall_mem_cons]
  exact ⟨hisNull.grown hmore hrefers hlast,
    (hrhs.grown hnull hrefers hlinked).grown hall hrefers hlinked',
    hlhs'.grown hall hrefers hlinked', nofun⟩

/-- A tree over nodes of its parts. -/
theorem asks_assemble {tree : Tree} {ids : List Nat}
    (hnames : ∀ name ∈ tree.names, IsName name.toList) (hlength : ids.length = tree.parts.length)
    (hids : ∀ id ∈ ids, binder.graph.SpelledAt known id) :
    Asks terms (assemble classes tree ids) binder fun id graph => graph.SpelledAt known id := by
  have hregister {kind : Kind} (hcomposes : kind.Composes ids.length) (span : Span) :
      Asks terms (node span (GraphM.register kind ids)) binder fun id graph =>
        graph.SpelledAt known id :=
    asks_node span (fun id _ h => h.setSpan id span) (GraphM.asks_register hserves hcomposes hids)
  cases tree with
  | literal span value =>
    exact asks_node span (fun id _ h => h.setSpan id span) (GraphM.asks_symbol hserves value _)
  | ident span name =>
    exact asks_lowerName hserves hreads span (hnames name (List.mem_singleton_self name))
  | field span receiver name =>
    refine hregister ?_ span
    rw [hlength]
    exact .field (hnames name.text (List.mem_append_right _ (List.mem_singleton_self _)))
  | call span target name args =>
    refine hregister ?_ span
    rw [hlength]
    exact .call (hnames name.text (List.mem_append_right _ List.mem_cons_self)) _
  | unary span op operand => exact hregister (hlength ▸ .unary op) span
  | binary span op lhs rhs => exact hregister (hlength ▸ .binary op) span
  | ternary span predicate ifTrue ifFalse => exact hregister (hlength ▸ .ternary) span
  | coalesce span lhs rhs =>
    obtain ⟨l, r, rfl⟩ := List.length_eq_two.mp hlength
    exact asks_node span (fun id _ h => h.setSpan id span) (asks_coalesce hserves span hreads.linked
      (hids l List.mem_cons_self) (hids r (List.mem_cons_of_mem _ List.mem_cons_self)))
  | group span inner =>
    obtain ⟨id, rfl⟩ := List.length_eq_one_iff.mp hlength
    exact asks_pure (hids id List.mem_cons_self)

theorem asks_lowerAll {trees : List Tree}
    (h : ∀ tree ∈ trees, ∀ binder : Binder, binder.Reads known →
      Asks terms (lower classes tree) binder fun id graph => graph.SpelledAt known id) :
    Asks terms (lowerAll classes trees) binder fun ids graph =>
      ids.length = trees.length ∧ ∀ id ∈ ids, graph.SpelledAt known id := by
  induction trees generalizing binder with
  | nil => exact asks_pure ⟨rfl, nofun⟩
  | cons tree trees ih =>
    refine asks_bind (h tree List.mem_cons_self binder hreads) fun id next hfollows hid => ?_
    have hnext := hreads.follows hfollows hserves.refers
    refine asks_bind (ih hnext fun tree htree => h tree (List.mem_cons_of_mem _ htree))
      fun ids last hmore hids => asks_pure ?_
    refine ⟨congrArg (· + 1) hids.1, ?_⟩
    simp only [List.forall_mem_cons]
    exact ⟨hid.grown hmore.graph hserves.refers hnext.linked, hids.2⟩

/-- Lowering a tree makes requests, and gives a node with the key of an expression. -/
theorem asks_lower {tree : Tree} (hnames : ∀ name ∈ tree.names, IsName name.toList) :
    Asks terms (lower classes tree) binder fun id graph => graph.SpelledAt known id := by
  induction tree using Tree.partsInduction generalizing binder with
  | step tree ih =>
    rw [lower_eq]
    refine asks_bind (asks_wholeClass? hserves tree) fun found next hfollows hfound => ?_
    split
    · exact asks_pure (hfound _ rfl)
    · have hnext := hreads.follows hfollows hserves.refers
      refine asks_bind (asks_lowerAll hserves hnext fun part hpart binder hreads => ?_)
        fun ids last hmore hids => ?_
      · exact ih part hpart hreads fun name hname =>
          hnames name (Tree.mem_names_of_mem_parts hpart hname)
      · exact asks_assemble hserves (hnext.follows hmore hserves.refers) hnames hids.1 hids.2

/-- Binding a source makes requests, whether it succeeds or not. -/
theorem asks_bindSource (source : String) :
    Asks terms (bindSource classes source) binder fun _ _ => True := by
  unfold bindSource
  dsimp only
  split
  · exact asks_throw _
  · exact asks_throw _
  · next tree _ hparsed =>
    refine asks_bind (asks_lower hserves hreads (isName_of_parse hparsed))
      fun root next hfollows _ => ?_
    refine asks_bind (asks_onGraph tree.span (R := fun _ _ => True)
      (GraphM.asks_request (.bind root) (fun _ => trivial) rfl fun _ _ _ => trivial))
      fun _ last _ _ => ?_
    exact asks_bind (asks_onGraph tree.span (R := fun _ _ => True) (GraphM.asks_request
      (.classify classes root) (fun hok => ⟨hserves.registry, hok⟩) rfl fun _ _ _ => trivial))
      fun _ _ _ _ => asks_pure trivial

end

end BinderM

/-! ## Histories -/

/-- Whether binding a source succeeds, and sealing. -/
def Call.succeeds (classes : ClassRegistry) (binder : Binder) : Call → Bool
  | .parse source => ((BinderM.bindSource classes source).run.run binder).1.isOk
  | .sealGraph => ((GraphM.sealGraph classes).run.run binder.graph).1.isOk
  | .addVariable _ _ | .addImport _ _ | .plan => true

/-- What a call declares may be declared. -/
def Graph.Terms.Declares (terms : Terms) : Call → Prop
  | .addVariable name _ => terms.leaf (.identifier name)
  | .addImport _ qualified => ∀ shortName, terms.leaf (.classRef shortName qualified)
  | .parse _ | .sealGraph | .plan => True

section

variable {binder : Binder} (hserves : terms.Serves classes known) (hreads : binder.Reads known)

include hreads

/-- A variable is found by its name, so if sources can name it then it has the key of an
expression. -/
theorem Binder.reads_addVariable (hrefers : terms.Refers) {name : String}
    (hleaf : terms.leaf (.identifier name)) (type : String) :
    Grown terms binder.graph (binder.addVariable name type).2.graph ∧
      (binder.addVariable name type).2.Reads known := by
  have hgrown : Grown terms binder.graph
      ((GraphM.declareVariable name type).run.run binder.graph).2 :=
    Grown.refl.request (.declareVariable name type) hleaf
  have hfinds := GraphM.finds_declareVariable name type binder.graph
  unfold addVariable run
  generalize hrun : (GraphM.declareVariable name type).run.run binder.graph = outcome at hgrown ⊢
  obtain ⟨_ | id, graph⟩ := outcome
  · have hfollows : binder.Follows (Grown terms) { binder with graph := graph } := ⟨hgrown, rfl⟩
    exact ⟨hgrown, hreads.follows hfollows hrefers⟩
  · refine ⟨hgrown, hgrown.linked hrefers hreads.linked, fun other node hother hnode => ?_⟩
    rw [variableNode?_cons] at hnode
    split at hnode
    · next heq =>
      cases hnode
      cases heq
      exact spelledAt_of_find? (hfinds id graph hrun) (.atom (Expression.isAtom_ident hother))
    · exact (hreads.named other node hother hnode).grown hgrown hrefers hreads.linked

include hserves

/-- A call makes requests, if it succeeds or may fail. -/
theorem Call.grown_run (call : Call) (hdeclares : terms.Declares call)
    (hok : terms.fails ∨ call.succeeds classes binder = true) :
    Grown terms binder.graph (call.run classes binder).graph ∧
      (call.run classes binder).Reads known := by
  have hfollows {next : Binder} (h : binder.Follows (Grown terms) next) :
      Grown terms binder.graph next.graph ∧ next.Reads known :=
    ⟨h.graph, hreads.follows h hserves.refers⟩
  cases call with
  | addVariable name type => exact Binder.reads_addVariable hreads hserves.refers hdeclares type
  | addImport wanted qualified =>
    exact hfollows ⟨Grown.refl.request (.addImport wanted qualified) hdeclares, rfl⟩
  | parse source =>
    exact hfollows ((BinderM.asks_bindSource hserves hreads source).follows hok)
  | sealGraph =>
    exact hfollows ⟨Grown.refl.request (.seal classes) ⟨hserves.registry, hok⟩, rfl⟩
  | plan => exact hfollows ⟨Grown.refl.request .plan trivial, rfl⟩

end

/-- The graph of a binder grows by requests after every history. -/
theorem Binder.grown_after (hserves : terms.Serves classes known) (hfails : terms.fails)
    {calls : List Call} (hdeclares : ∀ call ∈ calls, terms.Declares call) :
    Grown terms .empty (Binder.after classes calls).graph := by
  suffices h : ∀ binder : Binder, binder.Reads known →
      Grown terms binder.graph (calls.foldl (Call.run classes) binder).graph from
    h .empty reads_empty
  induction calls with
  | nil => exact fun _ _ => .refl
  | cons call calls ih =>
    intro binder hreads
    obtain ⟨hgrown, hreads⟩ :=
      call.grown_run hserves hreads (hdeclares call List.mem_cons_self) (.inl hfails)
    exact hgrown.trans
      (ih (fun call hcall => hdeclares call (List.mem_cons_of_mem _ hcall)) _ hreads)

end BindingPlan
