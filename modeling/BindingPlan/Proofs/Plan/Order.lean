import BindingPlan.Proofs.Graph.Renaming
import BindingPlan.Proofs.Schedule.Renaming

/-!
# The order of declarations

Nodes and flags are numbered in the order in which they are declared and bound, and every sweep goes
in that order. It does not show in the plan: two graphs that differ only in the numbers of their
nodes are read in the same passes and layers, for flags that stand for the same.

Main results:

* `plan_renames`: plans of graphs with a bijection between their nodes.
-/

namespace BindingPlan

/-- A pass of the schedule lists the read. -/
def Schedule.Lists (schedule : Schedule) (k : Nat) (read : ScheduledRead) : Prop :=
  ∃ pass, schedule.passes[k]? = some pass ∧ read ∈ pass.reads

/-- The read of the image of the node, for the images of the flags. -/
def ScheduledRead.rename (onNodes onFlags : Nat → Nat) (read : ScheduledRead) : ScheduledRead :=
  ⟨onNodes read.node, read.flags.map onFlags, read.layer⟩

variable {graph other : Graph} {rename : Nat → Nat}

theorem Graph.flags_eq {state : Sealed} (h : graph.sealed? = some state) :
    graph.flags = state.net.flags := by
  rw [flags, h]
  rfl

theorem Graph.flags_of_net? {net : Net} (h : graph.net? = .ok net) :
    net.flags = graph.flagTable := by
  obtain ⟨order, -, rfl⟩ := net?_eq_ok h
  rfl

/-- Flags stand for nodes of the graph, so only their names matter. -/
theorem renamedFlag_congr {onNodes : Nat → Nat} {table : FlagTable} (hlinked : graph.Linked)
    (h : ∀ i < graph.size, onNodes i = rename i) (flag : Nat) :
    graph.flagTable.renamedFlag onNodes table flag =
      graph.flagTable.renamedFlag rename table flag := by
  unfold FlagTable.renamedFlag
  cases hpurpose : graph.flagTable.purpose? flag with
  | none => rfl
  | some purpose =>
    have hneeds := hlinked.mem_purposes.mp (List.mem_of_getElem? hpurpose)
    have hsame : purpose.rename onNodes = purpose.rename rename := by
      cases purpose with
      | invalidation id => exact congrArg Purpose.invalidation (h id hneeds.1)
      | invalidateAll => rfl
      | requirement id branch =>
        exact congrArg (Purpose.requirement · branch) (h id hneeds.1)
    rw [Option.elim_some, Option.elim_some, hsame]

/-- The plan does not depend on the order of declarations. If a bijection between the nodes of two
graphs that were just sealed keeps kinds, up to the names of imports, children, marks of bindings,
which nodes are dynamic, which types observable and which members bindable, then planning makes the
same number of passes, and reads a node in a pass, at a layer and for flags if it reads its image in
the same pass, at the same layer and for the flags that stand for the same. -/
theorem plan_renames (hgraph : graph.FreshlyBuilt) (hother : other.FreshlyBuilt)
    (h : graph.Renames rename other) :
    ∃ schedule schedule', ((GraphM.plan).run.run graph).1 = .ok schedule ∧
      ((GraphM.plan).run.run other).1 = .ok schedule' ∧
      schedule'.passes.length = schedule.passes.length ∧
      ∀ k read, read.node < graph.size →
        (schedule.Lists k read ↔
          schedule'.Lists k (read.rename rename (graph.flags.renamedFlag rename other.flags))) := by
  obtain ⟨net, hnet, hsealed⟩ := hgraph.freshlySealed.exists_net?
  obtain ⟨net', hnet', hsealed'⟩ := hother.freshlySealed.exists_net?
  have hw := Graph.wellFormed_of_net? hnet
  have hw' := Graph.wellFormed_of_net? hnet'
  have hlinked := hgraph.built.linked
  obtain ⟨passes, last, hrun, -⟩ := Progress.runs_run hw (Progress.invariant_start hw)
  obtain ⟨passes', last', hrun', -⟩ := Progress.runs_run hw' (Progress.invariant_start hw')
  obtain ⟨onNodes, hnodes, hpermutes⟩ := h.exists_perm hlinked
  obtain ⟨onFlags, hflags, hrenames⟩ :=
    hpermutes.exists_onFlags hlinked hother.built.linked hnet hnet'
  have hall := Progress.renames_run hrenames hw hw' hrun hrun'
  refine ⟨_, _, ?_, ?_, hall.length_eq.symm, fun k read hread => ?_⟩
  · rw [Graph.run_plan hsealed, hrun]
    rfl
  · rw [Graph.run_plan hsealed', hrun']
    rfl
  obtain ⟨i, flags, layer⟩ := read
  have hflags : graph.flags.renamedFlag rename other.flags = onFlags := by
    funext flag
    rw [Graph.flags_eq hsealed, Graph.flags_eq hsealed', hflags, Graph.flags_of_net? hnet]
    exact (renamedFlag_congr hlinked hnodes flag).symm
  have hlists := exists_getElem?_iff hall (fun pass pass' hpass =>
    hpass i flags (flags.map onFlags) layer (FlagSet.renames_map flags)) k
  unfold ScheduledRead.rename
  rw [hflags, ← hnodes i hread]
  exact hlists.symm

/-- The built-in types and a class with a static member. -/
def ClassRegistry.switch : ClassRegistry :=
  (builtin.extend [{ ClassDef.bare "x.Switch" with
    fields := [⟨"on", "boolean", true, false, false⟩] }]).1

/-- A variable decides two conditionals, one of them behind a static member. -/
def Layout.switched : Layout where
  classes := []
  imports := [⟨none, "x.Switch"⟩]
  variableDecls := [⟨"a", "int"⟩, ⟨"b", "int"⟩, ⟨"c", "boolean"⟩]
  bindings := ["c ? a : b", "Switch.on && c"]

/-- The same declarations and bindings in another order, with another name for the class. -/
def Layout.switchedLater : Layout where
  classes := []
  imports := [⟨some "S", "x.Switch"⟩]
  variableDecls := [⟨"c", "boolean"⟩, ⟨"b", "int"⟩, ⟨"a", "int"⟩]
  bindings := ["S.on && c", "c ? a : b"]

theorem plan_renames_switched :
    let graph := Layout.switched.sealedGraph .switch
    let other := Layout.switchedLater.sealedGraph .switch
    let rename := fun i => [0, 3, 2, 1, 6, 4, 5].getD i 0
    graph.FreshlyBuilt ∧ other.FreshlyBuilt ∧ graph.Renames rename other ∧
      ∃ schedule schedule', ((GraphM.plan).run.run graph).1 = .ok schedule ∧
        ((GraphM.plan).run.run other).1 = .ok schedule' ∧
        schedule'.passes.length = schedule.passes.length ∧
        ∀ k read, read.node < graph.size →
          (schedule.Lists k read ↔ schedule'.Lists k
            (read.rename rename (graph.flags.renamedFlag rename other.flags))) := by
  intro graph other rename
  have hgraph : graph.FreshlyBuilt := Layout.freshlyBuilt_sealedGraph (by decide +kernel)
  have hother : other.FreshlyBuilt := Layout.freshlyBuilt_sealedGraph (by decide +kernel)
  have h : graph.Renames rename other := by decide +kernel
  exact ⟨hgraph, hother, h, plan_renames hgraph hother h⟩

end BindingPlan
