import BindingPlan.Schedule.Commit

/-!
# Read plans

A plan is the list of passes that reads a net to exhaustion. Each pass reads its batch in layers and
is committed; the next pass exists if its batch is not empty.

Main definitions:

* `Progress.run`: the passes from a state on, and the state in which they leave the net.
-/

namespace BindingPlan

/-- One read of a node within a pass (`ScheduledRead`). -/
structure ScheduledRead where
  node : Nat
  /-- The flags that the read is for. -/
  flags : FlagSet
  /-- Position in the order of the pass: a read needs only values of lower layers and of earlier
  passes. -/
  layer : Nat
deriving DecidableEq, Repr

/-- The reads of one pass, in order (`Pass`). -/
structure Pass where
  reads : List ScheduledRead
deriving DecidableEq, Repr

/-- The passes that read a net, and how many flags there are (`Schedule`). -/
structure Schedule where
  passes : List Pass
  flagCount : Nat
  limit : Nat
deriving DecidableEq, Repr

namespace Progress

/-- The reads of layers, layer by layer. -/
def passOf (progress : Progress) (layers : List (List Nat)) : Pass :=
  ⟨layers.zipIdx.flatMap fun (nodes, layer) =>
    nodes.map fun i => ⟨i, (progress.mark i).shouldRead, layer⟩⟩

/-- Runs passes until the batch is empty: the loop of `run`. The passes read different flags of a
node, so the bound is not reached if it is above the number of pairs of a node and a flag that it
may be needed for. -/
def runPasses (net : Net) : Nat → Progress → Progress × Except ScheduleError (List Pass)
  | 0, progress => (progress, .ok [])
  | bound + 1, progress =>
    let batch := progress.batch net
    if batch.isEmpty then (progress, .ok [])
    else
      match progress.layers net batch with
      | .error e => (progress, .error e)
      | .ok layers =>
        match progress.mark? net with
        | .error e => (progress, .error e)
        | .ok (next, more) =>
          let pass := progress.passOf layers
          if more then
            let (last, passes) := runPasses net bound next
            (last, passes.map (pass :: ·))
          else (next, .ok [pass])

/-- Number of pairs of a node and a flag that it may be needed for. -/
def workload (net : Net) : Nat :=
  net.ids.foldl (fun total i => total + (net.node i).conditionalRead.size) 0

/-- The schedule from a state on, and the state in which it leaves the net (`run`). -/
def run (net : Net) (progress : Progress) : Progress × Except ScheduleError Schedule :=
  let (last, passes) := progress.runPasses net (workload net + 1)
  (last, passes.map fun passes => ⟨passes, net.flags.size, net.limit⟩)

end Progress

/-- Where the reading of a net stands (`SchedulerState`). -/
inductive Phase where
  /-- Nothing was committed. -/
  | sealed
  /-- So many passes were committed, and more remain. -/
  | pass (count : Nat)
  /-- Nothing is left to read. -/
  | exhausted
deriving DecidableEq, Repr

/-- Reading pass by pass (`Scheduler`). -/
structure Scheduler where
  progress : Progress
  phase : Phase
  committed : Nat
deriving DecidableEq, Repr

namespace Scheduler

/-- A scheduler that has committed nothing itself (`new`). -/
def start (progress : Progress) : Scheduler :=
  ⟨progress, .sealed, 0⟩

/-- Commits a pass; tells whether another one has something to read (`mark_bits_read`). -/
def mark? (net : Net) (scheduler : Scheduler) : Except ScheduleError (Scheduler × Bool) :=
  match scheduler.progress.mark? net with
  | .error e => .error e
  | .ok (progress, more) =>
    let committed := scheduler.committed + 1
    .ok (⟨progress, if more then .pass committed else .exhausted, committed⟩, more)

end Scheduler
end BindingPlan
