import BindingPlan.Report.Document
import BindingPlan.Report.Drawing
import BindingPlan.Report.PassList

/-!
# Reports

The forms in which an analysis can be reported.
-/

namespace BindingPlan

/-- The forms of a report (`EmitStage`). -/
inductive Report where
  /-- The passes as text. -/
  | schedule
  /-- Everything, as a document. -/
  | document
  /-- The flags as text. -/
  | flags
  /-- The graph in the DOT language. -/
  | drawing
deriving DecidableEq, Repr

/-- The report with a name. -/
def Report.ofName? (name : String) : Option Report :=
  match name with
  | "schedule" => some .schedule
  | "json" => some .document
  | "flags" => some .flags
  | "dot" => some .drawing
  | _ => none

/-- An analysis in one of the forms. -/
def Analysis.report (analysis : Analysis) : Report → String
  | .schedule => analysis.schedule.render analysis.graph
  | .document => analysis.toJson.pretty
  | .flags => analysis.graph.flagList
  | .drawing => analysis.graph.drawing

end BindingPlan
