import BindingPlan.Binding.Binder
import BindingPlan.Layout

/-!
# Analysis of a layout

From the description of a layout to its sealed graph and the schedule of its reads: the classes of
the layout are added to a registry, imports and variables are declared, all bindings are bound, and
the graph is sealed and planned. All bindings are tried, so that all failing ones are reported.
-/

namespace BindingPlan

/-- A diagnostic about one of the bindings of a layout (`BindingDiagnostic`). -/
structure BindingDiagnostic where
  /-- Position among the bindings. -/
  binding : Nat
  source : String
  diagnostic : Diagnostic
deriving DecidableEq, Repr

/-- The diagnostic with an excerpt of its binding (`render`); `none` if its span cuts a character of
it. -/
def BindingDiagnostic.render? (d : BindingDiagnostic) : Option String :=
  d.diagnostic.render? ("binding[" ++ toString d.binding ++ "]") d.source

/-- Why a layout cannot be analysed (`PipelineError`). -/
inductive AnalysisError where
  | layout (error : JsonError)
  | registry (error : RegistryError)
  | bindings (diagnostics : List BindingDiagnostic)
  | graph (error : GraphError)
deriving DecidableEq, Repr

def AnalysisError.message : AnalysisError → String
  | .layout e => "invalid layout description: " ++ e.message
  | .registry e => e.message
  | .bindings diagnostics => toString diagnostics.length ++ " binding expression(s) failed"
  | .graph e => e.message

/-- A sealed graph and the schedule of its reads (`Analysis`). -/
structure Analysis where
  /-- The description as it was read. -/
  source : String
  /-- The classes of the host and of the layout. -/
  classes : ClassRegistry
  graph : Graph
  schedule : Schedule
  /-- The root of each binding. -/
  roots : List Nat
deriving DecidableEq, Repr

namespace Layout

/-- Declares imports, each under its simple name unless it has another. -/
def declareImports : List ImportDecl → Binder → Except GraphError Binder
  | [], binder => .ok binder
  | i :: imports, binder =>
    match binder.addImport (i.shortName.getD (TypeName.simple i.type)) i.type with
    | (.ok _, binder) => declareImports imports binder
    | (.error e, _) => .error e

def declareVariables : List VariableDecl → Binder → Except GraphError Binder
  | [], binder => .ok binder
  | v :: decls, binder =>
    match binder.addVariable v.name v.type with
    | (.ok _, binder) => declareVariables decls binder
    | (.error e, _) => .error e

/-- The outcomes of bindings and the binder behind them. -/
def bindAll (classes : ClassRegistry) : List String → Binder →
    List (String × Except Diagnostic Nat) × Binder
  | [], binder => ([], binder)
  | source :: sources, binder =>
    let (outcome, binder) := (BinderM.bindSource classes source).run.run binder
    let (outcomes, binder) := bindAll classes sources binder
    ((source, outcome) :: outcomes, binder)

/-- The failures among the outcomes of bindings. -/
def failures (outcomes : List (String × Except Diagnostic Nat)) : List BindingDiagnostic :=
  outcomes.zipIdx.filterMap fun ((source, outcome), binding) =>
    match outcome with
    | .ok _ => none
    | .error diagnostic => some ⟨binding, source, diagnostic⟩

/-- The roots among the outcomes of bindings. -/
def rootsOf (outcomes : List (String × Except Diagnostic Nat)) : List Nat :=
  outcomes.filterMap fun (_, outcome) => outcome.toOption

/-- Binds, seals and plans a layout (`analyze`). -/
def analyze (classes : ClassRegistry) (layout : Layout) :
    Except AnalysisError (Graph × Schedule × List Nat) := do
  let declared := declareImports layout.imports .empty >>= declareVariables layout.variableDecls
  let binder ← declared.mapError .graph
  let (outcomes, binder) := bindAll classes layout.bindings binder
  match failures outcomes with
  | [] =>
    let planned : GraphM Schedule := do
      GraphM.sealGraph classes
      GraphM.plan
    let (schedule, graph) := planned.run.run binder.graph
    let schedule ← schedule.mapError .graph
    return (graph, schedule, rootsOf outcomes)
  | diagnostics => throw (.bindings diagnostics)

end Layout

/-- Analyses the description of a layout (`compile`). Its classes are added to the registry. -/
def analyze (classes : ClassRegistry) (source : String) : Except AnalysisError Analysis := do
  let layout ← (Layout.read source).mapError .layout
  match classes.extend layout.classes with
  | (_, .error e) => throw (.registry e)
  | (classes, .ok ()) =>
    let (graph, schedule, roots) ← layout.analyze classes
    return ⟨source, classes, graph, schedule, roots⟩

end BindingPlan
