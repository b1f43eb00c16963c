import BindingPlan.Schedule.Batch

/-!
# Committing a pass

When a batch was read, the flags that its nodes were asked for count as read. Then nodes settle: a
node is read for good once every flag that it may still be needed for is the requirement of a
conditional whose predicate is read for good and whose own needs the node was read for. Then guards
are released whose predicate is known, and what must be read is recomputed.

Main definitions:

* `Progress.commit`: the state after the reads of the batch.
* `Progress.mark?`: the same, with whether another pass has something to read.
-/

namespace BindingPlan
namespace Progress

/-- Counts the flags that the nodes were asked for as read: the first loop of `mark_bits_read`. -/
def readBatch (progress : Progress) (nodes : List Nat) : Progress :=
  progress.map fun i mark =>
    if nodes.contains i then { mark with readSoFar := mark.readSoFar.union mark.shouldRead }
    else mark

/-! ## Settling -/

/-- The flag stands for a branch of a conditional whose predicate is read for good, and which is
needed under no flag but the given ones (`requirement_settled`). -/
def requirementSettled (net : Net) (progress : Progress) (flag : Nat) (readSoFar : FlagSet) :
    Bool :=
  match net.flags.requirement? flag with
  | none => false
  | some (conditional, _) =>
    match (net.node conditional).predicate with
    | none => false
    | some predicate =>
      (progress.mark predicate).isRead &&
        (net.node conditional).conditionalRead.isSubset readSoFar

/-- A dynamic node that is not read for good, and for which only settled requirements are left: the
test of `settle_reads`. -/
def settles (net : Net) (progress : Progress) (i : Nat) : Bool :=
  let node := net.node i
  let mark := progress.mark i
  node.isDynamic && !mark.isRead &&
    (node.conditionalRead.diff mark.readSoFar).toList.all fun flag =>
      progress.requirementSettled net flag mark.readSoFar

/-- Marks nodes as read for good. -/
def markRead (progress : Progress) (nodes : List Nat) : Progress :=
  progress.map fun i mark => if nodes.contains i then { mark with isRead := true } else mark

/-- Settles nodes in rounds until a round settles none: the loop of `settle_reads`. Every other
round settles a node, so the bound is not reached if it is above the number of nodes that are not
read for good. -/
def settleRounds (net : Net) : Nat → Progress → Progress
  | 0, progress => progress
  | bound + 1, progress =>
    match net.ids.filter (progress.settles net) with
    | [] => progress
    | nodes => settleRounds net bound (progress.markRead nodes)

/-- Settles all nodes that can be settled (`settle_reads`). -/
def settle (net : Net) (progress : Progress) : Progress :=
  let unread := net.ids.filter fun i => (net.node i).isDynamic && !(progress.mark i).isRead
  progress.settleRounds net (unread.length + 1)

/-! ## Guards -/

/-- The value of a predicate is known to a conditional, as `elevate_guards` has it: the predicate is
read for good, was read under all of its invalid flags, or was read for all that the conditional was
asked for. -/
def predicateKnown (net : Net) (progress : Progress) (conditional predicate : Nat) : Bool :=
  let mark := progress.mark predicate
  let asked := (progress.mark conditional).shouldRead
  mark.isRead || (net.node predicate).invalid.isSubset mark.readSoFar ||
    (!asked.isEmpty && asked.isSubset mark.readSoFar)

/-- Releases the guards of a conditional whose predicate is known (`elevate_guards`). -/
def releaseGuards (net : Net) (progress : Progress) : Progress :=
  progress.map fun i mark =>
    let guards := (net.node i).dependencies.filterMap Dependency.guard
    let known := guards.any fun guard => progress.predicateKnown net i guard.predicate
    { mark with released := mark.released || known }

/-! ## Commit -/

/-- The state after the nodes were read: the steps of `mark_bits_read`. -/
def commitNodes (net : Net) (progress : Progress) (nodes : List Nat) : Progress :=
  (((progress.readBatch nodes).settle net).releaseGuards net).refresh net

/-- The state after the batch was read. -/
def commit (net : Net) (progress : Progress) : Progress :=
  progress.commitNodes net (progress.batch net)

/-- The state after the batch was read, and whether another pass has something to read
(`mark_bits_read`). Only dynamic nodes can be read. -/
def mark? (net : Net) (progress : Progress) : Except ScheduleError (Progress × Bool) :=
  let batch := progress.batch net
  match batch.find? fun i => !(net.node i).isDynamic with
  | some i => .error (.notDynamic i)
  | none =>
    let next := progress.commitNodes net batch
    .ok (next, !(next.batch net).isEmpty)

end Progress
end BindingPlan
