import BindingPlan.Schedule.Progress

/-!
# What to read in a pass

A node is pending if it is dynamic, not read for good, and asked for under some flag. The batch of a
pass holds the pending nodes that nothing holds back: no guard below them waits for its predicate,
and no target is held back unless an earlier pass has read it for all that they need.

A batch is split into layers, so that a node comes after the targets that are read in the same pass.

Main definitions:

* `Progress.batch`: the nodes to read in the next pass.
* `Progress.layers`: a batch in reading order, or the nodes that have none.
-/

namespace BindingPlan

/-- Why a batch cannot be read. -/
inductive ScheduleError where
  /-- None of the nodes can be read before the others. -/
  | noReadOrder (nodes : List Nat)
  /-- The value of the node never changes. -/
  | notDynamic (node : Nat)
deriving DecidableEq, Repr

namespace Progress

/-- Dynamic nodes that are asked for and not read for good (`pending`). -/
def pending (net : Net) (progress : Progress) : List Nat :=
  net.ids.filter fun i =>
    let mark := progress.mark i
    (net.node i).isDynamic && !mark.isRead && !mark.shouldRead.isEmpty

/-- The target has nothing to read, and was read for all that the node needs it for (`covers`): the
flags that the node is asked for, or the requirement of the branch behind a guard. -/
def covers (net : Net) (progress : Progress) (i : Nat) (dependency : Dependency) : Bool :=
  let target := progress.mark dependency.target
  target.shouldRead.isEmpty &&
    match dependency.guard with
    | some guard =>
      match (net.node i).requirementFlag? guard.branch with
      | some flag => target.readSoFar.contains flag
      | none => false
    | none => (progress.mark i).shouldRead.isSubset target.readSoFar

/-- A guarded dependency whose predicate is not known yet (`is_pending_guard`). -/
def isPendingGuard (progress : Progress) (i : Nat) (dependency : Dependency) : Bool :=
  dependency.guard.isSome && !(progress.mark i).released

/-- Some dependency holds the node back, given the nodes that are held back below it
(`waits_on`). -/
def waitsOn (net : Net) (progress : Progress) (blocked : Nat → Bool) (i : Nat) : Bool :=
  (net.node i).dependencies.any fun dependency =>
    progress.isPendingGuard i dependency ||
      (blocked dependency.target && !progress.covers net i dependency)

/-- The nodes that are not read and cannot be read now (`blocked`). -/
def blocked (net : Net) (progress : Progress) : Array Bool :=
  sweep net.size false net.order fun blocked i =>
    let mark := progress.mark i
    !mark.isRead && (mark.shouldRead.isEmpty || progress.waitsOn net blocked i)

/-- The nodes of a list that are asked for and not held back (`filter_should_read`). -/
def readable (net : Net) (progress : Progress) (nodes : List Nat) : List Nat :=
  let blocked := progress.blocked net
  nodes.filter fun i =>
    !(progress.mark i).shouldRead.isEmpty && !progress.waitsOn net (blocked.getD · false) i

/-- The nodes to read in the next pass (`should_read`). -/
def batch (net : Net) (progress : Progress) : List Nat :=
  progress.readable net (progress.pending net)

/-! ## Reading order -/

/-- A node can be read next, given the nodes that were just read (`should_read_now`): every target
is read for good, was just read, or was read earlier for all that the node needs. -/
def readNow (net : Net) (progress : Progress) (justRead : List Nat) (i : Nat) : Bool :=
  !(progress.mark i).shouldRead.isEmpty &&
    (net.node i).dependencies.all fun dependency =>
      (progress.mark dependency.target).isRead || justRead.contains dependency.target ||
        (!progress.isPendingGuard i dependency && progress.covers net i dependency)

/-- The nodes of a list that can be read next. -/
def readyNow (net : Net) (progress : Progress) (justRead nodes : List Nat) : List Nat :=
  nodes.filter (progress.readNow net justRead)

/-- The nodes of a list that cannot be read next. -/
def notReadyNow (net : Net) (progress : Progress) (justRead nodes : List Nat) : List Nat :=
  nodes.filter fun i => !progress.readNow net justRead i

theorem length_notReadyNow_lt {net : Net} {progress : Progress} {justRead nodes : List Nat}
    (someReady : progress.readyNow net justRead nodes ≠ []) :
    (progress.notReadyNow net justRead nodes).length < nodes.length := by
  obtain ⟨i, member⟩ := List.exists_mem_of_ne_nil _ someReady
  obtain ⟨inside, isReady⟩ := List.mem_filter.mp member
  exact List.length_filter_lt_length_iff_exists.mpr ⟨i, inside, by simp [isReady]⟩

/-- Layers of the remaining nodes, behind the nodes that were chosen before: the loop of
`order_batch`. -/
def layersFrom (net : Net) (progress : Progress) (chosen remaining : List Nat) :
    Except ScheduleError (List (List Nat)) :=
  if remaining = [] then .ok []
  else
    let ready := progress.readyNow net chosen remaining
    let rest := progress.notReadyNow net chosen remaining
    if _stuck : ready = [] then .error (.noReadOrder rest)
    else (layersFrom net progress (chosen ++ ready) rest).map (ready :: ·)
termination_by remaining.length
decreasing_by exact length_notReadyNow_lt _stuck

/-- A batch in layers (`order_batch`). -/
def layers (net : Net) (progress : Progress) (nodes : List Nat) :
    Except ScheduleError (List (List Nat)) :=
  progress.layersFrom net [] nodes

end Progress
end BindingPlan
