import BindingPlan.Proofs.Binding.Dictionary

/-!
# Bindings are judged independently

All bindings of a layout share a graph, and what a failing one has done to it by then stays done.
Yet in an unambiguous layout a binding fails if it has no meaning among the declarations, and only
then. So the analysis reports it if and only if it fails as the only binding of the layout.

If a wrapper has no value, the first binding that reads through it fails, but leaves the moved
links; an equal one then finds them and reads a member of the wrapper itself.

Main results:

* `Layout.mem_failing_iff_meaning?`: the bindings that fail are those without a meaning.
* `failing_alone_iff`: a binding fails in a layout if and only if it fails on its own.
* `failing_sharedWrapper`: two equal bindings of which only the first one fails.
-/

namespace BindingPlan

open BindingPlan.Graph

variable {classes : ClassRegistry} {dict : Dictionary classes} {declared binder : Binder}
  {layout : Layout} {sources : List String} {source : String} {i : Nat}

/-- What a source means to a binder; nothing if its text has errors. -/
def Binder.meaning? (classes : ClassRegistry) (binder : Binder) (source : String) :
    Option Meaning :=
  (Tree.of? source).bind fun tree => (tree.read? classes binder).bind Reading.meaning?

theorem Binder.meaning?_of_tree {tree : Tree} (h : Tree.of? source = some tree) :
    binder.meaning? classes source = (tree.read? classes binder).bind Reading.meaning? := by
  unfold meaning?
  rw [h, Option.bind_some]

/-- Binding a source fails only if it has no meaning. -/
theorem BinderM.reads_bindSource (h : binder.Agrees dict declared)
    (htree : ∀ tree, Tree.of? source = some tree →
      (∀ name ∈ tree.idents, declared.Unmistakable classes name) ∧
        ∀ reading ∈ tree.readings classes declared,
          dict.meaning? reading.key = reading.meaning?) :
    Reads dict declared (bindSource classes source) binder
      (fun _ _ => ∃ meaning, declared.meaning? classes source = some meaning)
      (declared.meaning? classes source = none) := by
  unfold bindSource
  dsimp only
  split
  · next hlex =>
    refine reads_throw h ?_
    unfold Binder.meaning? Tree.of?
    rw [hlex]
    rfl
  · next hlex hresult =>
    refine reads_throw h ?_
    unfold Binder.meaning? Tree.of?
    rw [hlex, hresult]
    rfl
  · next tree hlex hresult =>
    have hof : Tree.of? source = some tree := by
      unfold Tree.of?
      rw [hlex, hresult]
    obtain ⟨hidents, hreadings⟩ := htree tree hof
    rw [Binder.meaning?_of_tree hof]
    exact reads_bindTree h (isName_of_parse hresult) hidents hreadings

namespace Layout

/-- The positions of the bindings that the analysis reports as failing. -/
def failing (classes : ClassRegistry) (layout : Layout) : List Nat :=
  match layout.analyze classes with
  | .error (.bindings diagnostics) => diagnostics.map BindingDiagnostic.binding
  | _ => []

/-- The layout with one binding only. -/
def alone (layout : Layout) (source : String) : Layout :=
  { layout with bindings := [source] }

/-- A binding is reported if it fails in the binder behind those in front of it. -/
theorem mem_failing_iff : i ∈ layout.failing classes ↔ ∃ binder source diagnostic,
    layout.declare = .ok binder ∧ layout.bindings[i]? = some source ∧
      outcomeOf classes (bindAll classes (layout.bindings.take i) binder).2 source =
        .error diagnostic := by
  constructor
  · intro h
    unfold failing at h
    split at h
    · next hanalyze =>
      obtain ⟨binder, hdeclare, -, rfl⟩ := analyze_eq_bindings_iff.mp hanalyze
      obtain ⟨d, hd, rfl⟩ := List.mem_map.mp h
      obtain ⟨hsource, houtcome⟩ := getElem?_bindAll (mem_failures_iff.mp hd)
      exact ⟨binder, d.source, d.diagnostic, hdeclare, hsource, houtcome.symm⟩
    · cases h
  · rintro ⟨binder, source, diagnostic, hdeclare, hsource, houtcome⟩
    have hbound : (bindAll classes layout.bindings binder).1[i]? =
        some (source, .error diagnostic) := by
      rw [getElem?_bindAll_of_getElem? hsource, houtcome]
    have hmem := mem_failures_iff (d := ⟨i, source, diagnostic⟩).mpr hbound
    have hanalyze := analyze_eq_bindings_iff.mpr
      ⟨binder, hdeclare, List.ne_nil_of_mem hmem, rfl⟩
    unfold failing
    rw [hanalyze]
    exact List.mem_map_of_mem hmem

theorem declared_of_declare (h : layout.declare = .ok binder) : layout.declared = binder := by
  unfold declared
  rw [h]
  rfl

namespace Unambiguous

/-- The bindings of an unambiguous layout have the names and readings of its dictionary. -/
theorem reads_bindSource (h : layout.Unambiguous classes) (hsource : source ∈ layout.bindings)
    (hagrees : binder.Agrees (dictionary h) layout.declared) :
    BinderM.Reads (dictionary h) layout.declared (BinderM.bindSource classes source) binder
      (fun _ _ => ∃ meaning, layout.declared.meaning? classes source = some meaning)
      (layout.declared.meaning? classes source = none) := by
  refine BinderM.reads_bindSource hagrees fun tree htree => ?_
  have hmem : tree ∈ layout.trees := List.mem_filterMap.mpr ⟨source, hsource, htree⟩
  refine ⟨h.unmistakable tree hmem, fun reading hreading => ?_⟩
  exact Reading.lookup?_key h.agree
    (List.mem_append_right _ (List.mem_flatMap.mpr ⟨tree, hmem, hreading⟩))

/-- Behind any of its bindings, failing or not, the binder agrees with the dictionary. -/
theorem agrees_bindAll (h : layout.Unambiguous classes)
    (hdeclare : layout.declare = .ok layout.declared)
    (hsources : ∀ source ∈ sources, source ∈ layout.bindings) :
    (bindAll classes sources layout.declared).2.Agrees (dictionary h) layout.declared := by
  let holds (done : List String) (binder : Binder) : Prop :=
    (∀ source ∈ done, source ∈ layout.bindings) → binder.Agrees (dictionary h) layout.declared
  have hstep (done : List String) (source : String) (binder : Binder)
      (hbinder : holds done binder) :
      holds (done ++ [source]) ((BinderM.bindSource classes source).run.run binder).2 := by
    intro hdone
    have hreads := h.reads_bindSource
      (hdone source (List.mem_append_right _ (List.mem_singleton_self _)))
      (hbinder fun other hother => hdone other (List.mem_append_left _ hother))
    generalize hrun : (BinderM.bindSource classes source).run.run binder = outcome
    obtain ⟨_ | id, next⟩ := outcome
    · exact (hreads.of_error hrun).1
    · exact (hreads.of_ok hrun).2.1
  have hdeclared : holds [] layout.declared := fun _ => agrees_declared h hdeclare
  have hbound : holds ([] ++ sources) (bindAll classes sources layout.declared).2 :=
    bindAll_induction hstep hdeclared
  exact hbound hsources

/-- Behind any bindings no walk runs into a cycle. -/
theorem ne_dependencyCycle (h : layout.Unambiguous classes)
    (hdeclare : layout.declare = .ok layout.declared) (key : String) (span : Span) :
    outcomeOf classes (bindAll classes sources layout.declared).2 source ≠
      .error (.ofGraphError (.dependencyCycle key) span) := by
  let known : String → Prop := (· ∈ layout.classNames classes)
  have hcovers : (Rules.written known (fun _ => True) True).Covers classes := {
    classes := fun _ hc => List.mem_append_left _ (List.mem_append_left _ (List.mem_map_of_mem hc))
    builtin := fun _ hname => List.mem_append_left _ (List.mem_append_right _ hname) }
  have hserves := serves_written h.apart hcovers
  have hstep (source : String) {binder : Binder}
      (hmeets : binder.Meets known (Sound known fun _ => True)) :=
    BinderM.takes_bindSource_of_any hserves (fun _ => trivial) source hmeets
  let holds (_ : List String) (binder : Binder) : Prop :=
    binder.Meets known (Sound known fun _ => True)
  have hdeclared : holds [] layout.declared := meets_declare sound_empty hserves hdeclare
  have hmeets : holds ([] ++ sources) (bindAll classes sources layout.declared).2 :=
    bindAll_induction (fun _ source _ hmeets => hmeets.steps hserves (hstep source hmeets).steps)
      hdeclared
  exact (hstep source hmeets).ne_dependencyCycle id key span

/-- Behind any of the bindings of the layout, one of them fails if and only if it has no meaning. -/
theorem outcomeOf_eq_error_iff (h : layout.Unambiguous classes)
    (hdeclare : layout.declare = .ok layout.declared) (hsource : source ∈ layout.bindings)
    (hsources : ∀ source ∈ sources, source ∈ layout.bindings) :
    (∃ diagnostic, outcomeOf classes (bindAll classes sources layout.declared).2 source =
      .error diagnostic) ↔ layout.declared.meaning? classes source = none := by
  have hreads := h.reads_bindSource hsource (h.agrees_bindAll hdeclare hsources)
  constructor
  · rintro ⟨diagnostic, houtcome⟩
    refine (hreads.of_error (Prod.ext houtcome rfl)).2.resolve_right ?_
    rintro ⟨key, span, rfl⟩
    exact h.ne_dependencyCycle hdeclare key span houtcome
  · intro hnone
    generalize hrun : (BinderM.bindSource classes source).run.run
      (bindAll classes sources layout.declared).2 = outcome
    obtain ⟨diagnostic | id, next⟩ := outcome
    · exact ⟨diagnostic, congrArg Prod.fst hrun⟩
    · obtain ⟨-, -, meaning, hmeaning⟩ := hreads.of_ok hrun
      cases hnone.symm.trans hmeaning

end Unambiguous

/-- If the declarations of an unambiguous layout can be made, the bindings that fail are those
without a meaning. -/
theorem mem_failing_iff_meaning? (h : layout.Unambiguous classes)
    (hsource : layout.bindings[i]? = some source) :
    i ∈ layout.failing classes ↔ layout.declare = .ok layout.declared ∧
      layout.declared.meaning? classes source = none := by
  have hmem := List.mem_of_getElem? hsource
  have htake : ∀ other ∈ layout.bindings.take i, other ∈ layout.bindings :=
    fun _ => List.mem_of_mem_take
  rw [mem_failing_iff]
  constructor
  · rintro ⟨binder, other, diagnostic, hdeclare, hother, houtcome⟩
    cases hsource.symm.trans hother
    obtain rfl := declared_of_declare hdeclare
    exact ⟨hdeclare, (h.outcomeOf_eq_error_iff hdeclare hmem htake).mp ⟨diagnostic, houtcome⟩⟩
  · rintro ⟨hdeclare, hnone⟩
    obtain ⟨diagnostic, houtcome⟩ := (h.outcomeOf_eq_error_iff hdeclare hmem htake).mpr hnone
    exact ⟨layout.declared, source, diagnostic, hdeclare, hsource, houtcome⟩

/-- A binding of an unambiguous layout is unambiguous on its own. -/
theorem Unambiguous.alone (h : layout.Unambiguous classes) (hsource : source ∈ layout.bindings) :
    (layout.alone source).Unambiguous classes := by
  have htrees : ∀ tree ∈ (layout.alone source).trees, tree ∈ layout.trees := by
    intro tree htree
    obtain ⟨other, hother, htree⟩ := List.mem_filterMap.mp htree
    cases List.mem_singleton.mp hother
    exact List.mem_filterMap.mpr ⟨source, hsource, htree⟩
  have hreadings : ∀ reading ∈ (layout.alone source).allReadings classes,
      reading ∈ layout.allReadings classes := by
    intro reading hreading
    rcases List.mem_append.mp hreading with hreading | hreading
    · exact List.mem_append_left _ hreading
    · obtain ⟨tree, htree, hreading⟩ := List.mem_flatMap.mp hreading
      exact List.mem_append_right _ (List.mem_flatMap.mpr ⟨tree, htrees tree htree, hreading⟩)
  exact {
    apart := h.apart
    builtin := h.builtin
    wrapper := h.wrapper
    isName := h.isName
    unmistakable := fun tree htree => h.unmistakable tree (htrees tree htree)
    agree := fun r hr s hs => h.agree r (hreadings r hr) s (hreadings s hs) }

end Layout

/-- In an unambiguous layout the analysis reports a binding as failing if and only if it fails as
the only binding. -/
theorem failing_alone_iff (h : layout.Unambiguous classes)
    (hsource : layout.bindings[i]? = some source) :
    i ∈ layout.failing classes ↔ 0 ∈ (layout.alone source).failing classes := by
  have halone : (layout.alone source).bindings[0]? = some source := rfl
  rw [Layout.mem_failing_iff_meaning? h hsource,
    Layout.mem_failing_iff_meaning? (h.alone (List.mem_of_getElem? hsource)) halone]
  rfl

/-- Reads through a wrapper, one of which fails. -/
def Layout.gaugeReadings : Layout where
  classes := []
  imports := []
  variableDecls := [⟨"gauge", "app.Gauge"⟩]
  bindings := ["gauge.LIMIT.level + 1", "gauge.LIMIT.missing", "app.Gauge.LIMIT.level"]

theorem failing_alone_iff_gaugeReadings :
    Layout.gaugeReadings.Unambiguous .gauge ∧
      (1 ∈ Layout.gaugeReadings.failing .gauge ↔
        0 ∈ (Layout.gaugeReadings.alone "gauge.LIMIT.missing").failing .gauge) := by
  have h : Layout.gaugeReadings.Unambiguous .gauge := by decide +kernel
  exact ⟨h, failing_alone_iff h rfl⟩

/-- The built-in types, a wrapper without a value, and a class with a field of it. -/
def ClassRegistry.emptyWrapper : ClassRegistry :=
  (builtin.extend [
    { ClassDef.bare "W" with
      observableField := true, fields := [⟨"value", "int", false, false, false⟩] },
    { ClassDef.bare "C" with fields := [⟨"value", "W", false, false, false⟩] }]).1

/-- Two equal bindings that read through the wrapper. -/
def Layout.sharedWrapper : Layout where
  classes := []
  imports := []
  variableDecls := [⟨"x", "C"⟩]
  bindings := ["x.value", "x.value"]

/-- Each fails on its own, but the second one finds the links that the first one moved. -/
theorem failing_sharedWrapper :
    Layout.sharedWrapper.bindings[1]? = some "x.value" ∧
      ¬ (1 ∈ Layout.sharedWrapper.failing .emptyWrapper ↔
        0 ∈ (Layout.sharedWrapper.alone "x.value").failing .emptyWrapper) := by
  decide +kernel

end BindingPlan
