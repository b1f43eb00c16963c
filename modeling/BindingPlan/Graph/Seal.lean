import BindingPlan.Graph.Flags
import BindingPlan.Graph.Resolve
import BindingPlan.Net.Flow
import BindingPlan.Net.Order

/-!
# Sealing

Sealing classifies every node, derives the read net, and freezes the graph. It happens once; when
the classification fails, the graph stays open.

Main definitions:

* `Graph.net?`: the read net of a classified graph.
* `GraphM.sealGraph`: seals a graph.
* `GraphM.plan`: plans the reads of a sealed graph.
-/

namespace BindingPlan

/-- The node of the read net, without its flag sets; given the flags of the graph and the edges of
all nodes. It has the parts of `Expr` that `assign_flags` and `build_dependencies` fill in. -/
def Graph.netNode (graph : Graph) (assigned : FlagAssignment)
    (dependencies : Nat → List Dependency) (id : Nat) : NetNode where
  isDynamic := graph.isDynamic id
  isBinding := (graph.node id).isBinding
  flag := assigned.state.flag? id
  requirementBase := assigned.state.base? id
  predicate := (graph.node id).predicate?
  dependencies := dependencies id
  dependants := dependantsOf dependencies graph.size id
  invalid := .empty
  conditionalRead := .empty

/-- The nodes of the read net, without their flag sets. -/
def Graph.netNodes (graph : Graph) (assigned : FlagAssignment) : List NetNode :=
  let edges := (graph.ids.map graph.dependencies).toArray
  graph.ids.map (graph.netNode assigned (edges.getD · []))

/-- The read net of a classified graph; fails with a node of a cycle if there is one. This is `seal`
behind the classification: `assign_flags`, `build_dependencies`, `dependency_order`, and the two
passes over the flag sets. -/
def Graph.net? (graph : Graph) : Except Nat Net := do
  let assigned := graph.assignFlags
  let nodes := (graph.netNodes assigned).toArray
  let order ← dependencyOrder
    (fun id => (nodes.getD id default).dependencies.map Dependency.target) graph.size
  let net : Net := ⟨nodes, order, assigned.state.table, assigned.all, assigned.limit⟩
  return net.withFlow

/-- The error of a schedule, with the keys of its nodes. -/
def Graph.scheduleError (graph : Graph) : ScheduleError → GraphError
  | .noReadOrder nodes => .noReadOrder (nodes.map graph.keyOf)
  | .notDynamic node => .notDynamic (graph.keyOf node)

namespace GraphM

/-- Classifies all nodes and freezes the graph (`seal`). -/
def sealGraph (classes : ClassRegistry) : GraphM Unit := do
  if (← get).isSealed then throw .alreadySealed
  classifyAll classes
  let graph ← get
  match graph.net? with
  | .error id => throw (.dependencyCycle (graph.keyOf id))
  | .ok net => set { graph with sealed? := some ⟨net, .start net⟩ }

/-- The net and the progress of a sealed graph (`ensure_sealed`). -/
def requireSealed : GraphM Sealed := do
  match (← get).sealed? with
  | some state => return state
  | none => throw .notSealed

/-- Dynamic nodes that are asked for and not read for good (`pending_expressions`). -/
def pending : GraphM (List Nat) := do
  let state ← requireSealed
  return state.progress.pending state.net

/-- Replaces the progress of a sealed graph. -/
def setProgress (progress : Progress) : GraphM Unit :=
  modify fun graph =>
    { graph with sealed? := graph.sealed?.map fun state => { state with progress := progress } }

/-- Reads a sealed graph to exhaustion (`plan`). -/
def plan : GraphM Schedule := do
  let state ← requireSealed
  let (progress, result) := state.progress.run state.net
  setProgress progress
  match result with
  | .ok schedule => return schedule
  | .error e => throw ((← get).scheduleError e)

end GraphM

namespace Graph

/-- The flags of a graph, none before it is sealed (`flags`). -/
def flags (graph : Graph) : FlagTable :=
  graph.sealed?.elim .empty fun state => state.net.flags

/-- What a flag stands for, in words (`flag_name`): the key of the node that it invalidates or
decides. -/
def flagName (graph : Graph) (flag : Nat) : String :=
  match graph.flags.purpose? flag with
  | some (.invalidation id) => graph.keyOf id
  | some .invalidateAll => "INVALIDATE ANY"
  | some (.requirement id branch) => graph.keyOf id ++ (if branch then " TRUE" else " FALSE")
  | none => "#" ++ toString flag

/-- The node of the read net, blank before the graph is sealed. -/
def netNodeOf (graph : Graph) (id : Nat) : NetNode :=
  graph.sealed?.elim default fun state => state.net.node id

/-- The read state of a node, blank before the graph is sealed. -/
def markOf (graph : Graph) (id : Nat) : ReadMark :=
  graph.sealed?.elim default fun state => state.progress.mark id

end Graph
end BindingPlan
