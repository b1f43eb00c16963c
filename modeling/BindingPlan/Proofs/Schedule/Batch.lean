import BindingPlan.Proofs.Schedule.Progress
import BindingPlan.Schedule.Batch

/-!
# Batches

A batch holds the nodes with flags to read whose dependencies are all provided for: the target is
read for good, is in the batch itself, or was read before for all that the node needs.

Main results:

* `Progress.mem_batch`: which nodes a batch holds.
* `Progress.readNow_eq_true`: which nodes can be read next, given those that were just read.
-/

namespace BindingPlan
namespace Progress

variable {net : Net} {progress : Progress} {i : Nat} {d : Dependency}

/-! ## Dependencies that are provided for -/

/-- The target has nothing to read, and was read for what the node needs it for. -/
def Covers (net : Net) (progress : Progress) (i : Nat) (d : Dependency) : Prop :=
  (∀ f, f ∉ (progress.mark d.target).shouldRead) ∧
    match d.guard with
    | some g => ∃ f, (net.node i).requirementFlag? g.branch = some f ∧
        f ∈ (progress.mark d.target).readSoFar
    | none => ∀ f ∈ (progress.mark i).shouldRead, f ∈ (progress.mark d.target).readSoFar

theorem covers_eq_true : progress.covers net i d = true ↔ progress.Covers net i d := by
  unfold covers Covers
  cases hg : d.guard with
  | none => simp
  | some g =>
    cases hf : (net.node i).requirementFlag? g.branch with
    | none => simp [hf]
    | some f => simp [hf, ← FlagSet.mem_iff_contains]

/-- A target that covers a node with flags to read was read. -/
theorem Covers.wasRead (h : progress.Covers net i d)
    (hi : ∃ f, f ∈ (progress.mark i).shouldRead) : progress.WasRead d.target := by
  obtain ⟨-, hcase⟩ := h
  cases hg : d.guard with
  | none =>
    rw [hg] at hcase
    obtain ⟨f, hf⟩ := hi
    exact ⟨f, hcase f hf⟩
  | some g =>
    rw [hg] at hcase
    obtain ⟨r, -, hread⟩ := hcase
    exact ⟨r, hread⟩

theorem isPendingGuard_eq_false :
    progress.isPendingGuard i d = false ↔
      (d.guard.isSome = true → (progress.mark i).released = true) := by
  unfold isPendingGuard
  cases d.guard.isSome <;> simp

/-! ## The batch -/

theorem waitsOn_eq_false {blocked : Nat → Bool} :
    progress.waitsOn net blocked i = false ↔ ∀ d ∈ (net.node i).dependencies,
      (d.guard.isSome = true → (progress.mark i).released = true) ∧
        (blocked d.target = false ∨ progress.Covers net i d) := by
  unfold waitsOn
  rw [List.any_eq_false]
  refine forall_congr' fun d => forall_congr' fun _ => ?_
  rw [← covers_eq_true, ← isPendingGuard_eq_false]
  cases progress.isPendingGuard i d <;> cases blocked d.target <;> simp

theorem mem_pending (hu : progress.UpToDate net) :
    i ∈ progress.pending net ↔ ∃ f, f ∈ (progress.mark i).shouldRead := by
  unfold pending Net.ids
  rw [List.mem_filter, List.mem_range]
  simp only [Bool.and_eq_true, Bool.not_eq_true', FlagSet.isEmpty_eq_false]
  refine ⟨fun h => h.2.2, fun h => ?_⟩
  obtain ⟨f, hf⟩ := h
  exact ⟨Net.lt_size_of_dynamic (hu.dynamic hf), ⟨hu.dynamic hf, hu.not_isRead hf⟩, f, hf⟩

theorem mem_batch_iff_waitsOn (hu : progress.UpToDate net) :
    i ∈ progress.batch net ↔ (∃ f, f ∈ (progress.mark i).shouldRead) ∧
      progress.waitsOn net ((progress.blocked net).getD · false) i = false := by
  unfold batch readable
  rw [List.mem_filter, mem_pending hu]
  simp only [Bool.and_eq_true, Bool.not_eq_true', FlagSet.isEmpty_eq_false]
  exact ⟨fun h => h.2, fun h => ⟨h.1, h⟩⟩

/-- The table of the nodes that cannot be read satisfies its equation. -/
theorem getD_blocked (hw : net.WellFormed) (hi : i < net.size) :
    (progress.blocked net).getD i false = (!(progress.mark i).isRead &&
      ((progress.mark i).shouldRead.isEmpty ||
        progress.waitsOn net ((progress.blocked net).getD · false) i)) := by
  refine getD_sweep false net.size hw.targets_first hw.nodup_order
    (fun i hi => (hw.mem_order i).mp hi) ?_ ((hw.mem_order i).mpr hi)
  intro f g i h
  have hsame : progress.waitsOn net f i = progress.waitsOn net g i := by
    rw [Bool.eq_iff_iff, ← not_iff_not, Bool.not_eq_true, Bool.not_eq_true, waitsOn_eq_false,
      waitsOn_eq_false]
    refine forall_congr' fun d => forall_congr' fun hd => ?_
    rw [h d.target (List.mem_map_of_mem hd)]
  rw [hsame]

/-- A node of the net can be used now if it is read for good or in the batch. -/
theorem getD_blocked_eq_false (hw : net.WellFormed) (hu : progress.UpToDate net)
    (hi : i < net.size) :
    (progress.blocked net).getD i false = false ↔
      (progress.mark i).isRead = true ∨ i ∈ progress.batch net := by
  rw [getD_blocked hw hi, mem_batch_iff_waitsOn hu, ← FlagSet.isEmpty_eq_false]
  cases (progress.mark i).isRead <;> simp

/-- A batch holds the nodes with flags to read whose dependencies are provided for. -/
theorem mem_batch (hw : net.WellFormed) (hu : progress.UpToDate net) :
    i ∈ progress.batch net ↔ (∃ f, f ∈ (progress.mark i).shouldRead) ∧
      ∀ d ∈ (net.node i).dependencies,
        (d.guard.isSome = true → (progress.mark i).released = true) ∧
          ((progress.mark d.target).isRead = true ∨ d.target ∈ progress.batch net ∨
            progress.Covers net i d) := by
  rw [mem_batch_iff_waitsOn hu, waitsOn_eq_false]
  refine and_congr_right fun _ => forall_congr' fun d => forall_congr' fun hd =>
    and_congr_right fun _ => ?_
  rw [getD_blocked_eq_false hw hu (hw.target_lt_size hd), or_assoc]

theorem batch_subset_pending (h : i ∈ progress.batch net) : i ∈ progress.pending net :=
  (List.mem_filter.mp h).1

theorem nodup_batch : (progress.batch net).Nodup :=
  (List.nodup_range.filter _).filter _

/-! ## Reading next -/

theorem readNow_eq_true {justRead : List Nat} :
    progress.readNow net justRead i = true ↔ (∃ f, f ∈ (progress.mark i).shouldRead) ∧
      ∀ d ∈ (net.node i).dependencies, (progress.mark d.target).isRead = true ∨
        d.target ∈ justRead ∨
          ((d.guard.isSome = true → (progress.mark i).released = true) ∧
            progress.Covers net i d) := by
  unfold readNow
  simp only [Bool.and_eq_true, Bool.not_eq_true', FlagSet.isEmpty_eq_false, List.all_eq_true,
    Bool.or_eq_true, List.contains_iff_mem, isPendingGuard_eq_false, covers_eq_true, or_assoc]

end Progress
end BindingPlan
