import BindingPlan.Proofs.Binding.Independent
import BindingPlan.Proofs.Binding.Requests
import BindingPlan.Proofs.Graph.Fresh
import BindingPlan.Proofs.Graph.Sources

/-!
# Look-ups that fail again

A look-up that fails leaves types of nodes behind that were settled before it, and nothing else that
is read again: the nodes on the way down to the one that failed have no types yet, and their links
have not moved. So a second look-up goes the same way and fails with the same error.

This relies on the values of wrappers: where a wrapper has none, that is found out when the links
have moved, and the second look-up reads a member of the wrapper itself.

Main results:

* `GraphM.run_resolveWithin_again`: a walk that failed fails again.
* `fails_again`: in every graph of plain nodes, a failed look-up fails again with the same error.
* `fails_once_emptyWrapper`: a wrapper without a value, on which the second look-up succeeds.
-/

namespace BindingPlan

namespace GraphM

open BindingPlan.Graph Operation

variable {classes : ClassRegistry} {graph next : Graph} {id bound again : Nat} {e : GraphError}
  {ids : List Nat}

/-! ## A walk that fails -/

/-- The look-up failed with an error of resolution, and a second one with the bound fails with the
same error and leaves the graph as it is. -/
def FailsAgain (classes : ClassRegistry) (bound id : Nat) (e : GraphError) (next : Graph) : Prop :=
  (∃ key span cause, e = .resolution key span cause) ∧
    (resolveWithin classes bound id).run.run next = (.error e, next)

/-- Behind its children, a node without a type is resolved like before them. -/
theorem run_resolveWithin_of_spares (classes : ClassRegistry) (again : Nat)
    (hid : id < graph.size)
    (hnone : (graph.node id).resolvedType = none) (huntouched : graph.Untouched)
    (hspares : graph.Spares (fun _ => False) (fun key => ∃ child ∈ (graph.node id).children,
      graph.Sets child key) next) :
    (resolveWithin classes (again + 1) id).run.run next = ((do
      let types ← (graph.node id).children.mapM (resolveWithin classes again)
      let type ← settle classes id (graph.node id) types
      modifyNode id fun node => { node with resolvedType := some type }
      return type) : GraphM ClassType).run.run next := by
  have hwaits := huntouched.waits hid hnone hspares
  have hsame := hspares.same id hid (fun h => h) hwaits
  have hchildren : (next.node id).children = (graph.node id).children :=
    (congrArg Node.children hsame :)
  rw [run_resolveWithin ((huntouched.spares hspares).fresh id hwaits).accepts hwaits, hchildren]
  simp only [settle_congr hsame]

section

variable (hreads : classes.ReadsWrappers)

include hreads

theorem spares_children (bound : Nat) (huntouched : graph.Untouched)
    (hids : ∀ id ∈ ids, id < graph.size) :
    graph.Spares (fun _ => False) (fun key => ∃ id ∈ ids, graph.Sets id key)
      ((ids.mapM (resolveWithin classes bound)).run.run graph).2 :=
  spares_mapM (fun _ _ huntouched hok =>
    spares_resolveWithin (fun _ => hreads) bound huntouched hok) hids huntouched (.inl trivial)

/-- Nodes that are resolved one after the other fail again, if the one that failed does. -/
theorem run_mapM_again (huntouched : graph.Untouched) (hids : ∀ id ∈ ids, id < graph.size)
    (hagain : ∀ id ∈ ids, id < again)
    (hrun : (ids.mapM (resolveWithin classes bound)).run.run graph = (.error e, next))
    (hfails : ∀ id ∈ ids, ∀ graph : Graph, graph.Untouched →
      (resolveWithin classes bound id).run.run graph = (.error e, next) →
      FailsAgain classes again id e next) :
    (∃ key span cause, e = .resolution key span cause) ∧
      (ids.mapM (resolveWithin classes again)).run.run next = (.error e, next) := by
  obtain ⟨before, id, after, results, reached, rfl, hbefore, hid⟩ := exists_of_run_mapM_error hrun
  rw [List.forall_mem_append, List.forall_mem_cons] at hids hagain hfails
  have hspares := spares_children hreads bound huntouched hids.1
  rw [hbefore] at hspares
  obtain ⟨hcause, hid'⟩ := hfails.2.1 reached (huntouched.spares hspares) hid
  -- the nodes in front of it have their types by now
  have hsettles := ((admits_settles classes).resolveWithin bound id).of_run hid
  have hbefore' : (before.mapM (resolveWithin classes again)).run.run next = (.ok results, next) :=
    run_mapM_of_resolved hagain.1 ((resolved_of_run_mapM hids.1 hbefore).imp
      fun id type => hsettles.remembers.resolvedType id type)
  exact ⟨hcause, run_mapM_of_error hbefore' hid' after⟩

/-- A walk that failed fails again with the same error. The bound on the second walk may be another
one, as the first one may have added nodes. -/
theorem run_resolveWithin_again (hbound : id < bound) (hagain : id < again)
    (huntouched : graph.Untouched)
    (hrun : (resolveWithin classes bound id).run.run graph = (.error e, next)) :
    FailsAgain classes again id e next := by
  induction bound generalizing graph id again with
  | zero => exact absurd hbound (Nat.not_lt_zero id)
  | succ bound ih =>
    obtain ⟨again, rfl⟩ : ∃ smaller, again = smaller + 1 :=
      Nat.exists_eq_add_one_of_ne_zero (Nat.ne_zero_of_lt hagain)
    rcases Nat.lt_or_ge id graph.size with hid | hid
    · cases hnone : (graph.node id).resolvedType with
      | some type =>
        rw [run_resolveWithin_of_resolved hnone] at hrun
        cases hrun
      | none =>
        have hfresh := huntouched.fresh id hnone
        have hlower {child : Nat} (hchild : child ∈ (graph.node id).children) :=
          hfresh.ordered child hchild
        have hids : ∀ child ∈ (graph.node id).children, child < graph.size :=
          fun child hchild => Nat.lt_trans (hlower hchild) hid
        have hagain' : ∀ child ∈ (graph.node id).children, child < again :=
          fun child hchild => Nat.lt_of_lt_of_le (hlower hchild) (Nat.le_of_lt_succ hagain)
        have hspares := spares_children hreads bound huntouched hids
        rw [run_resolveWithin hfresh.accepts hnone, run_bind] at hrun
        generalize hchildren : ((graph.node id).children.mapM
          (resolveWithin classes bound)).run.run graph = outcome at hrun hspares
        have hsecond :=
          run_resolveWithin_of_spares classes again hid hnone huntouched hspares
        obtain ⟨_ | types, below⟩ := outcome
        · cases hrun
          obtain ⟨hcause, hchildren'⟩ := run_mapM_again hreads huntouched hids hagain' hchildren
            fun child hchild _ huntouched' => ih
              (Nat.lt_of_lt_of_le (hlower hchild) (Nat.le_of_lt_succ hbound)) (hagain' child hchild)
              huntouched'
          exact ⟨hcause, by rw [hsecond, run_bind, hchildren']⟩
        · have hwaits := huntouched.waits hid hnone hspares
          have huntouched' := huntouched.spares hspares
          have hends : Ends classes below id _ := ends_settle (fun hlt =>
            huntouched'.isOpen hlt hwaits) (huntouched'.fresh id hwaits) types
          rw [settle_congr (hspares.same id hid (fun h => h) hwaits)] at hends
          dsimp only at hrun
          rw [run_bind] at hrun
          generalize hsettle : (settle classes id (graph.node id) types).run.run below = outcome
            at hends hrun
          cases hends with
          | fails cause =>
            cases hrun
            refine ⟨⟨_, _, _, rfl⟩, ?_⟩
            rw [hsecond, run_bind_of_run (run_mapM_of_resolved hagain'
              (resolved_of_run_mapM hids hchildren)), run_bind, hsettle]
          | succeeds => cases hrun
          | breaks h => exact absurd hreads h
    · rw [run_resolveWithin_of_size_le hid] at hrun
      cases hrun
      exact ⟨⟨_, _, _, rfl⟩, run_resolveWithin_of_size_le hid⟩

end

end GraphM

/-! ## Graphs that are built by requests -/

namespace Graph

theorem serves_plain {classes : ClassRegistry} {fails : Prop}
    (hreads : fails → classes.ReadsWrappers) :
    (Terms.plain fails).Serves classes fun _ => True where
  literal := fun _ => rfl
  composed := fun _ _ _ hcomposes hchildren =>
    ⟨hcomposes.isPlain, hcomposes.accepts, fun child hchild => (hchildren child hchild).1⟩
  findClass := fun _ _ _ => ⟨trivial, trivial⟩
  registry := hreads
  refers := fun _ _ _ hcomposed => hcomposed.2.2

/-- Requests for plain nodes, or a binder, have built the graph, with registries in which all
wrappers have values. -/
def PlainlyBuilt (graph : Graph) : Prop :=
  Grown (.plain True) .empty graph ∨
    ∃ classes calls, classes.ReadsWrappers ∧ graph = (Binder.after classes calls).graph

theorem PlainlyBuilt.untouched {graph : Graph} (h : graph.PlainlyBuilt) : graph.Untouched := by
  obtain h | ⟨classes, calls, hreads, rfl⟩ := h
  · exact h.untouched
  · refine (Binder.grown_after (serves_plain fun _ => hreads) trivial fun call _ => ?_).untouched
    cases call with
    | addVariable => rfl
    | addImport => exact fun _ => rfl
    | _ => trivial

end Graph

/-- In a graph of plain nodes, where all wrappers have values: a look-up that fails does so with an
error of resolution, and on the graph that it leaves behind a second look-up for the node fails with
the same error, cause and key and span, and changes nothing any more. -/
theorem fails_again {classes : ClassRegistry} {graph next : Graph} {id : Nat} {e : GraphError}
    (hbuilt : graph.PlainlyBuilt) (hreads : classes.ReadsWrappers)
    (hrun : (GraphM.resolve classes id).run.run graph = (.error e, next)) :
    (∃ key span cause, e = .resolution key span cause) ∧
      (GraphM.resolve classes id).run.run next = (.error e, next) := by
  rcases Nat.lt_or_ge id graph.size with hid | hid
  · unfold GraphM.resolve at hrun ⊢
    rw [GraphM.run_bind, GraphM.run_get] at hrun ⊢
    have hsize : graph.size ≤ next.size :=
      ((GraphM.admits_settles classes).resolveWithin (graph.size + 1) id).of_run hrun |>.size_le
    exact GraphM.run_resolveWithin_again hreads (Nat.lt_succ_of_lt hid)
      (Nat.lt_succ_of_lt (Nat.lt_of_lt_of_le hid hsize)) hbuilt.untouched hrun
  · rw [GraphM.run_resolve_of_size_le hid] at hrun
    cases hrun
    exact ⟨⟨_, _, _, rfl⟩, GraphM.run_resolve_of_size_le hid⟩

/-- A gauge as a variable. -/
def gaugeDeclared : Graph :=
  Graph.Request.run .empty (.declareVariable "gauge" "app.Gauge")

/-- The level of the gauge. -/
def gaugeLevel : Graph :=
  Graph.Request.run gaugeDeclared (.register (.field "level" false) [0])

/-- A member of the level that is not there. -/
def gaugeMissing : Graph :=
  Graph.Request.run gaugeLevel (.register (.field "missing" false) [1])

/-- The first look-up moves the access to the level behind the node that reads its wrapper; the
second one fails on the value of the wrapper like the first one. -/
theorem fails_again_gaugeMissing :
    let next := ((GraphM.resolve .gauge 2).run.run gaugeMissing).2
    ClassRegistry.gauge.ReadsWrappers ∧ next.size = 4 ∧ (next.node 1).children = [3] ∧
      ∃ key span cause, (GraphM.resolve .gauge 2).run.run next =
        (.error (.resolution key span cause), next) := by
  intro next
  have hlevel : IsPlainName "level" := ⟨by decide, by decide, by decide⟩
  have hmissing : IsPlainName "missing" := ⟨by decide, by decide, by decide⟩
  have hdeclared : Graph.Grown (.plain True) .empty gaugeDeclared :=
    Graph.Grown.refl.request (.declareVariable "gauge" "app.Gauge") rfl
  have hbuilt : gaugeMissing.PlainlyBuilt :=
    .inl ((hdeclared.request (.register (.field "level" false) [0])
      (.inr ⟨⟨rfl, hlevel⟩, rfl, by decide +kernel⟩)).request
      (.register (.field "missing" false) [1]) (.inr ⟨⟨rfl, hmissing⟩, rfl, by decide +kernel⟩))
  have hreads : ClassRegistry.gauge.ReadsWrappers := by decide +kernel
  have hmoved : next.size = 4 ∧ (next.node 1).children = [3] := by decide +kernel
  obtain ⟨e, hrun⟩ : ∃ e, (GraphM.resolve .gauge 2).run.run gaugeMissing = (.error e, next) :=
    Operation.exists_error (by decide +kernel)
  obtain ⟨⟨key, span, cause, rfl⟩, hagain⟩ := fails_again hbuilt hreads hrun
  exact ⟨hreads, hmoved.1, hmoved.2, key, span, cause, hagain⟩

/-- An access through a wrapper without a value. -/
def sharedAccess : Graph :=
  Graph.Request.run (Graph.Request.run .empty (.declareVariable "x" "C"))
    (.register (.field "value" false) [0])

/-- The first look-up finds no value when the links have moved; the second one reads the field of
the wrapper. -/
theorem fails_once_emptyWrapper :
    let next := ((GraphM.resolve .emptyWrapper 1).run.run sharedAccess).2
    ((GraphM.resolve .emptyWrapper 1).run.run sharedAccess).1.isOk = false ∧
      ((GraphM.resolve .emptyWrapper 1).run.run next).1.toOption =
        some (ClassType.plain TypeName.int) := by
  decide +kernel

end BindingPlan
