import BindingPlan.Graph.Seal

/-!
# Schedules as text

One line for the flags, then one block for each pass, and in it one line for each read: its layer,
the key of the node, and the flags that the read is for.
-/

namespace BindingPlan

def ScheduledRead.line (graph : Graph) (read : ScheduledRead) : String :=
  "  [" ++ toString read.layer ++ "] " ++ graph.keyOf read.node ++ " " ++ read.flags.render ++ "\n"

def Pass.block (graph : Graph) (index : Nat) (pass : Pass) : String :=
  "pass " ++ toString index ++ ":\n" ++ String.join (pass.reads.map (ScheduledRead.line graph))

/-- The passes in order, for the nodes of a graph (`render`). -/
def Schedule.render (graph : Graph) (schedule : Schedule) : String :=
  "flags: " ++ toString schedule.flagCount ++ " (" ++ toString schedule.limit
    ++ " invalidateable)\n"
    ++ String.join (schedule.passes.zipIdx.map fun (pass, index) => pass.block graph index)

end BindingPlan
