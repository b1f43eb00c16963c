import BindingPlan.Graph.Seal

/-!
# Flag lists

One line for each flag: its number, what sort of flag it is, and the name of what it stands for.
-/

namespace BindingPlan

/-- The sort of a flag in one word. -/
def Purpose.word : Purpose → String
  | .invalidation _ => "invalidate"
  | .invalidateAll => "invalidate_all"
  | .requirement _ _ => "requirement"

/-- A text behind as many blanks as bring it to a width. -/
def padLeft (width : Nat) (text : String) : String :=
  String.ofList (List.replicate (width - text.length) ' ') ++ text

/-- A text in front of as many blanks as bring it to a width. -/
def padRight (width : Nat) (text : String) : String :=
  text ++ String.ofList (List.replicate (width - text.length) ' ')

namespace Graph

/-- Numbers take four columns and sorts fourteen; names end the line. -/
def flagLine (graph : Graph) (flag : Nat) (purpose : Purpose) : String :=
  padLeft 4 (toString flag) ++ "  " ++ padRight 14 purpose.word ++ " " ++ graph.flagName flag
    ++ "\n"

/-- The flags of a sealed graph in order (`flag_table`). -/
def flagList (graph : Graph) : String :=
  String.join (graph.flags.toList.map fun (flag, purpose) => graph.flagLine flag purpose)

end Graph
end BindingPlan
