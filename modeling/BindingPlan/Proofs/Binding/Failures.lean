import BindingPlan.Binding.Analysis
import BindingPlan.Proofs.Binding.Steps

/-!
# Failing bindings

The bindings of a layout are bound one after the other, each in the binder that those in front of it
leave, and the analysis reports all that fail.

Main results:

* `Layout.analyze_eq_bindings_iff`: when the analysis reports failing bindings, and which.
* `Layout.getElem?_bindAll`: a binding is bound in the binder behind those in front of it.
* `Layout.meets_declare`: what holds of the binder behind the declarations of a layout.
-/

namespace BindingPlan

open BindingPlan.Graph

namespace Layout

variable {classes : ClassRegistry} {layout : Layout} {binder next : Binder} {sources : List String}
  {outcomes : List (String × Except Diagnostic Nat)} {d : BindingDiagnostic} {source : String}
  {outcome : Except Diagnostic Nat} {k : Nat}

/-- The binder of a layout in front of its bindings. -/
def declare (layout : Layout) : Except GraphError Binder :=
  declareImports layout.imports .empty >>= declareVariables layout.variableDecls

/-- The outcome of binding a source. -/
def outcomeOf (classes : ClassRegistry) (binder : Binder) (source : String) :
    Except Diagnostic Nat :=
  ((BinderM.bindSource classes source).run.run binder).1

theorem bindAll_cons : bindAll classes (source :: sources) binder =
    ((source, outcomeOf classes binder source) ::
        (bindAll classes sources ((BinderM.bindSource classes source).run.run binder).2).1,
      (bindAll classes sources ((BinderM.bindSource classes source).run.run binder).2).2) :=
  rfl

/-- A binding is bound in the binder behind those in front of it. -/
theorem getElem?_bindAll (h : (bindAll classes sources binder).1[k]? = some (source, outcome)) :
    sources[k]? = some source ∧
      outcome = outcomeOf classes (bindAll classes (sources.take k) binder).2 source := by
  induction sources generalizing binder k with
  | nil => cases h
  | cons first sources ih =>
    rw [bindAll_cons] at h
    cases k with
    | zero =>
      cases h
      exact ⟨rfl, rfl⟩
    | succ k => exact ih h

theorem getElem?_bindAll_of_getElem? (h : sources[k]? = some source) :
    (bindAll classes sources binder).1[k]? = some (source,
      outcomeOf classes (bindAll classes (sources.take k) binder).2 source) := by
  induction sources generalizing binder k with
  | nil => cases h
  | cons first sources ih =>
    rw [bindAll_cons]
    cases k with
    | zero =>
      cases h
      rfl
    | succ k => exact ih h

/-- A property of binders that binding a source keeps, binding a list of them keeps. -/
theorem bindAll_induction {holds : List String → Binder → Prop} {done : List String}
    (hstep : ∀ done source binder, holds done binder →
      holds (done ++ [source]) ((BinderM.bindSource classes source).run.run binder).2)
    (h : holds done binder) : holds (done ++ sources) (bindAll classes sources binder).2 := by
  induction sources generalizing binder done with
  | nil =>
    rw [List.append_nil]
    exact h
  | cons source sources ih =>
    rw [bindAll_cons]
    have hrest := ih (hstep done source binder h)
    rwa [List.append_assoc, List.singleton_append] at hrest

theorem mem_failures_iff :
    d ∈ failures outcomes ↔ outcomes[d.binding]? = some (d.source, .error d.diagnostic) := by
  unfold failures
  rw [List.mem_filterMap]
  constructor
  · rintro ⟨⟨⟨source, outcome⟩, binding⟩, hmem, hd⟩
    have hmem := List.mem_zipIdx_iff_getElem?.mp hmem
    cases outcome with
    | ok id => cases hd
    | error diagnostic =>
      cases hd
      exact hmem
  · intro h
    exact ⟨((d.source, .error d.diagnostic), d.binding), List.mem_zipIdx_iff_getElem?.mpr h, rfl⟩

/-- The analysis reports failing bindings if there are some. -/
theorem analyze_eq_bindings_iff {diagnostics : List BindingDiagnostic} :
    layout.analyze classes = .error (.bindings diagnostics) ↔ ∃ binder,
      layout.declare = .ok binder ∧ diagnostics ≠ [] ∧
        failures (bindAll classes layout.bindings binder).1 = diagnostics := by
  unfold analyze
  change (layout.declare.mapError AnalysisError.graph >>= _) = _ ↔ _
  cases layout.declare with
  | error e =>
    constructor
    · intro h
      cases h
    · rintro ⟨binder, hbinder, -⟩
      cases hbinder
  | ok binder =>
    dsimp only [Except.mapError, bind, Except.bind]
    split
    · next hnone =>
      constructor
      · intro h
        generalize StateT.run _ (bindAll classes layout.bindings binder).2.graph = planned at h
        obtain ⟨_ | schedule, graph⟩ := planned <;> cases h
      · rintro ⟨_, hbinder, hne, heq⟩
        cases hbinder
        exact absurd (heq.symm.trans hnone) hne
    · next hsome =>
      constructor
      · intro h
        cases h
        exact ⟨binder, rfl, hsome, rfl⟩
      · rintro ⟨_, hbinder, -, rfl⟩
        cases hbinder
        rfl

/-! ## Declarations -/

variable {rules : Rules} {known : String → Prop} {holds : Graph → Prop}

theorem meets_declareImports {imports : List ImportDecl} (hmeets : binder.Meets known holds)
    (hserves : rules.Serves classes known holds) (h : declareImports imports binder = .ok next) :
    next.Meets known holds := by
  induction imports generalizing binder with
  | nil =>
    cases h
    exact hmeets
  | cons i imports ih =>
    unfold declareImports at h
    have hadded := Binder.meets_run hmeets hserves (GraphM.takes_addImport
      (i.shortName.getD (TypeName.simple i.type)) i.type)
    unfold Binder.addImport at h
    split at h
    · next heq =>
      rw [heq] at hadded
      exact ih hadded h
    · cases h

theorem meets_declareVariables {decls : List VariableDecl} (hmeets : binder.Meets known holds)
    (hserves : rules.Serves classes known holds) (h : declareVariables decls binder = .ok next) :
    next.Meets known holds := by
  induction decls generalizing binder with
  | nil =>
    cases h
    exact hmeets
  | cons v decls ih =>
    unfold declareVariables at h
    have hadded := Binder.meets_addVariable hmeets hserves v.name v.type
    split at h
    · next heq =>
      rw [heq] at hadded
      exact ih hadded h
    · cases h

/-- What holds of the binder behind the declarations of a layout. -/
theorem meets_declare (hempty : holds .empty) (hserves : rules.Serves classes known holds)
    (h : layout.declare = .ok binder) : binder.Meets known holds := by
  unfold declare at h
  cases himports : declareImports layout.imports .empty with
  | error e =>
    rw [himports] at h
    cases h
  | ok imported =>
    rw [himports] at h
    have hreached := meets_declareImports (Binder.meets_empty hempty) hserves himports
    exact meets_declareVariables hreached hserves h

end Layout
end BindingPlan
