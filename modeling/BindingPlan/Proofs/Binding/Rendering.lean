import BindingPlan.Proofs.Binding.Failures
import BindingPlan.Proofs.Tree.Spans

/-!
# Excerpts of failing bindings

The diagnostic of a failing binding is shown with an excerpt of its source. Most diagnostics are
about a span of that source. But a member that cannot be resolved is reported where its node was
first seen, and that may have been in an earlier binding; there its span lies, and it may cut a
character of the binding that it is reported for.

Main results:

* `Diagnostic.isSome_excerpt?`: a span of a source has an excerpt.
* `span_of_analyze`: where the span of a reported diagnostic lies.
* `not_rendered_sharedMember`: a member that is first seen in another binding cannot be shown.
-/

namespace BindingPlan

open BindingPlan.Graph

variable {classes : ClassRegistry} {layout : Layout} {spans : Span → Prop}

/-! ## Excerpts -/

theorem Diagnostic.isSome_excerpt?_of_boundary {span : Span} {source : List Char}
    (hstart : Boundary source (min span.start (byteLength source)))
    (hstop : Boundary source (min span.stop (byteLength source))) :
    (excerpt? span source).isSome := by
  obtain ⟨before, covered, rest, hbefore, hcovered⟩ := hstart.exists_cut hstop
  simp only [Nat.min_def] at hbefore hcovered
  unfold excerpt?
  dsimp only
  rw [hbefore]
  dsimp only [bind, Option.bind]
  rw [hcovered]
  rfl

/-- A span of a source has an excerpt. -/
theorem Diagnostic.isSome_excerpt? {span : Span} {source : List Char} (h : span.Within source) :
    (excerpt? span source).isSome := by
  refine isSome_excerpt?_of_boundary ?_ ?_
  · rw [Nat.min_eq_left h.start.le]
    exact h.start
  · rw [Nat.min_eq_left h.stop.le]
    exact h.stop

/-- In a source of characters of one byte every span has an excerpt. -/
theorem Diagnostic.isSome_excerpt?_of_single {source : List Char} (span : Span)
    (h : ∀ c ∈ source, c.utf8Size = 1) : (excerpt? span source).isSome :=
  isSome_excerpt?_of_boundary (boundary_of_single h (Nat.min_le_right _ _))
    (boundary_of_single h (Nat.min_le_right _ _))

theorem BindingDiagnostic.isSome_render? {d : BindingDiagnostic}
    (h : (Diagnostic.excerpt? d.diagnostic.span d.source.toList).isSome) : d.render?.isSome := by
  obtain ⟨⟨before, covered⟩, hexcerpt⟩ := Option.isSome_iff_exists.mp h
  unfold render? Diagnostic.render?
  rw [hexcerpt]
  rfl

/-! ## Spans of nodes -/

/-- Links are in order, and nodes have spans of the given kind. -/
structure Graph.Spanned (spans : Span → Prop) (graph : Graph) : Prop where
  linked : graph.Linked
  span : ∀ i span, (graph.node i).span = some span → spans span

theorem spanned_empty : Spanned spans .empty :=
  ⟨linked_empty, fun _ _ h => nomatch h⟩

/-- What steps keep of graphs with their links in order, a binder keeps. -/
theorem serves_of_linked (spans : Span → Prop) (classes : ClassRegistry) {holds : Graph → Prop}
    (hlinked : ∀ graph, holds graph → graph.Linked)
    (hsteps : ∀ graph next, holds graph → (Rules.any spans).Steps graph next → holds next) :
    (Rules.any spans).Serves classes (fun _ => True) holds where
  leaf := fun _ _ _ _ hchild => absurd hchild List.not_mem_nil
  expression := fun _ _ _ _ hchildren child hchild => (hchildren child hchild).1
  findClass := fun _ _ _ => ⟨trivial, trivial⟩
  ready := fun _ _ _ _ _ _ => trivial
  steps := hsteps
  classify := fun graph id h _ => GraphM.takes_classify (Rules.free_any spans)
    (Rules.covers_any spans classes) ((hlinked graph h).fits spans) id
  sealGraph := fun graph h => GraphM.takes_sealGraph (Rules.free_any spans)
    (Rules.covers_any spans classes) ((hlinked graph h).fits spans)

theorem serves_any (spans : Span → Prop) (classes : ClassRegistry) :
    (Rules.any spans).Serves classes (fun _ => True) (Spanned spans) :=
  serves_of_linked spans classes (fun _ h => h.linked) fun _ _ h hsteps =>
    ⟨h.linked.steps hsteps, Rules.Steps.span hsteps h.span⟩

/-- The span lies in one of the sources. -/
def Span.WithinAny (sources : List String) (span : Span) : Prop :=
  ∃ source ∈ sources, span.Within source.toList

/-- The variables are found, and the spans of nodes lie in the sources that were bound. -/
abbrev Binder.Spanned (sources : List String) (binder : Binder) : Prop :=
  binder.Meets (fun _ => True) (Graph.Spanned (Span.WithinAny sources))

theorem Binder.Spanned.mono {done : List String} {binder : Binder} (h : binder.Spanned done)
    (sources : List String) : binder.Spanned (done ++ sources) := by
  refine ⟨⟨h.graph.linked, fun i span hspan => ?_⟩, h.named⟩
  obtain ⟨source, hsource, hwithin⟩ := h.graph.span i span hspan
  exact ⟨source, List.mem_append_left _ hsource, hwithin⟩

/-- Binding one more source gives nodes spans of it, and its diagnostic is about it, or about a
member that was seen in one of the sources. -/
theorem BinderM.takes_bindSource_spanned {done : List String} {binder : Binder}
    (h : binder.Spanned done) (source : String) :
    Takes (.any (Span.WithinAny (done ++ [source]))) (Span.Within source.toList)
      (bindSource classes source) binder fun _ _ => True := by
  obtain ⟨htree, hresult⟩ := spans_of_parse source
  refine takes_bindSource (serves_any _ classes) (fun span hspan => ?_)
    (fun _ herror => within_of_mem_lexErrors herror) hresult htree (h.mono [source])
  exact ⟨source, List.mem_append_right _ (List.mem_singleton_self _), hspan⟩

theorem Binder.Spanned.bindSource {done : List String} {binder : Binder} (h : binder.Spanned done)
    (source : String) :
    ((BinderM.bindSource classes source).run.run binder).2.Spanned (done ++ [source]) :=
  (h.mono [source]).steps (serves_any _ classes) (BinderM.takes_bindSource_spanned h source).steps

/-! ## Failing bindings -/

/-- The span of each reported diagnostic lies in the source of its binding and has an excerpt,
unless it is about a member that cannot be resolved, which was first seen in an earlier binding;
then it lies in the source of that one. In a source of characters of one byte it has an excerpt
anyway. -/
theorem span_of_analyze {diagnostics : List BindingDiagnostic}
    (h : layout.analyze classes = .error (.bindings diagnostics)) : ∀ d ∈ diagnostics,
    layout.bindings[d.binding]? = some d.source ∧
    (d.diagnostic.span.Within d.source.toList ∧ d.render?.isSome ∨
      d.diagnostic.code = some DiagnosticCode.unresolvedMember ∧
        ∃ j < d.binding, ∃ earlier, layout.bindings[j]? = some earlier ∧
          d.diagnostic.span.Within earlier.toList) ∧
    ((∀ c ∈ d.source.toList, c.utf8Size = 1) → d.render?.isSome) := by
  intro d hd
  obtain ⟨declared, hdeclared, -, rfl⟩ := Layout.analyze_eq_bindings_iff.mp h
  obtain ⟨hsource, houtcome⟩ := Layout.getElem?_bindAll (Layout.mem_failures_iff.mp hd)
  refine ⟨hsource, ?_, fun hsingle =>
    BindingDiagnostic.isSome_render? (Diagnostic.isSome_excerpt?_of_single _ hsingle)⟩
  -- the binder in which the binding was bound
  let holds (done : List String) (binder : Binder) : Prop := binder.Spanned done
  have hbinder : holds [] declared :=
    Layout.meets_declare spanned_empty (serves_any _ classes) hdeclared
  have hreached : holds (layout.bindings.take d.binding)
      (Layout.bindAll classes (layout.bindings.take d.binding) declared).2 :=
    Layout.bindAll_induction (fun _ source _ h => h.bindSource source) hbinder
  have hreports := (BinderM.takes_bindSource_spanned hreached d.source).of_error
    (Prod.ext houtcome.symm rfl)
  obtain ⟨hsteps, hreports⟩ := hreports
  have hown (hwithin : d.diagnostic.span.Within d.source.toList) :
      d.diagnostic.span.Within d.source.toList ∧ d.render?.isSome :=
    ⟨hwithin, BindingDiagnostic.isSome_render? (Diagnostic.isSome_excerpt? hwithin)⟩
  obtain hwithin | ⟨hcode, i, hspan⟩ := hreports.span
  · exact .inl (hown hwithin)
  · -- the span of a node lies in this source or in an earlier one
    have hspanned := (hreached.mono [d.source]).steps (serves_any _ classes) hsteps
    obtain ⟨source, hmem, hwithin⟩ := hspanned.graph.span i _ hspan
    rcases List.mem_append.mp hmem with hmem | hmem
    · obtain ⟨j, hj, rfl⟩ := List.mem_take_iff_getElem.mp hmem
      have hlt : j < layout.bindings.length := by omega
      exact .inr ⟨hcode, j, by omega, _, List.getElem?_eq_getElem hlt, hwithin⟩
    · cases List.mem_singleton.mp hmem
      exact .inl (hown hwithin)

/-- The built-in types and a class with one field. -/
def ClassRegistry.oneMember : ClassRegistry :=
  (builtin.extend [{ ClassDef.bare "x.U" with fields := [⟨"f", "int", false, false, false⟩] }]).1

/-- Two bindings with a member that the class does not have. -/
def Layout.sharedMember : Layout where
  classes := []
  imports := []
  variableDecls := [⟨"u", "x.U"⟩]
  bindings := ["u.missing", "'é' + \"éééé\" + u.missing"]

/-- Both are about the span of the member in the first binding. -/
def Layout.sharedMemberFailures : List BindingDiagnostic :=
  let span : Span := ⟨0, 9⟩
  let diagnostic : Diagnostic :=
    { Diagnostic.error DiagnosticCode.unresolvedMember span "cannot resolve `u.missing`" with
      causes := [⟨"cannot find `missing` on `x.U`", some span⟩] }
  [⟨0, "u.missing", diagnostic⟩, ⟨1, "'é' + \"éééé\" + u.missing", diagnostic⟩]

theorem span_of_analyze_sharedMember :
    Layout.sharedMember.analyze .oneMember = .error (.bindings Layout.sharedMemberFailures) ∧
      ∀ d ∈ Layout.sharedMemberFailures,
        Layout.sharedMember.bindings[d.binding]? = some d.source ∧
        (d.diagnostic.span.Within d.source.toList ∧ d.render?.isSome ∨
          d.diagnostic.code = some DiagnosticCode.unresolvedMember ∧
            ∃ j < d.binding, ∃ earlier, Layout.sharedMember.bindings[j]? = some earlier ∧
              d.diagnostic.span.Within earlier.toList) ∧
        ((∀ c ∈ d.source.toList, c.utf8Size = 1) → d.render?.isSome) := by
  have h : Layout.sharedMember.analyze .oneMember =
      .error (.bindings Layout.sharedMemberFailures) := by decide +kernel
  exact ⟨h, span_of_analyze h⟩

/-- The span of the member in the first binding ends inside of a character of the second one. -/
theorem not_rendered_sharedMember :
    ∃ diagnostics,
      Layout.sharedMember.analyze .oneMember = .error (.bindings diagnostics) ∧
        ∃ d ∈ diagnostics, ¬ d.diagnostic.span.Within d.source.toList ∧ d.render? = none := by
  refine ⟨Layout.sharedMemberFailures, by decide +kernel, _,
    List.mem_cons_of_mem _ List.mem_cons_self, fun hwithin => ?_, by decide +kernel⟩
  have hsome := BindingDiagnostic.isSome_render? (Diagnostic.isSome_excerpt? hwithin)
  revert hsome
  decide +kernel

end BindingPlan
