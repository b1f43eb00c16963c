import Mathlib.Logic.Equiv.Basic
import BindingPlan.Proofs.Net.WellFormed

/-!
# Renaming a net

Two nets are the same up to names if a permutation of the nodes and one of the flags carry what is
given of every node over from one to the other. Then they carry over what is computed from it, since
the order in which the sweeps take the nodes does not show in their results.

Main results:

* `Net.Renames.renames_invalid`, `Net.Renames.renames_conditionalRead`: the computed flag sets are
  the same up to names.
-/

namespace BindingPlan

variable {onNodes onFlags : Nat ≃ Nat}

/-! ## Flag sets -/

/-- The second set holds the images of the flags in the first one. -/
def FlagSet.Renames (onFlags : Nat ≃ Nat) (set other : FlagSet) : Prop :=
  ∀ f, onFlags f ∈ other ↔ f ∈ set

namespace FlagSet

variable {s s' t t' : FlagSet}

theorem renames_empty : Renames onFlags .empty .empty :=
  fun _ => iff_of_false (not_mem_empty _) (not_mem_empty _)

theorem Renames.exists_mem_iff (h : Renames onFlags s s') : (∃ f, f ∈ s') ↔ ∃ f, f ∈ s :=
  onFlags.surjective.exists.trans (exists_congr h)

theorem Renames.subset_iff (h : Renames onFlags s s') (h' : Renames onFlags t t') :
    (∀ f ∈ s', f ∈ t') ↔ ∀ f ∈ s, f ∈ t :=
  onFlags.surjective.forall.trans (forall_congr' fun f => imp_congr (h f) (h' f))

theorem renames_map (s : FlagSet) : Renames onFlags s (s.map onFlags) := by
  intro f
  simp only [mem_map, onFlags.injective.eq_iff, exists_eq_right]

theorem Renames.unique (h : Renames onFlags s t) (h' : Renames onFlags s t') : t = t' :=
  ext_mem (onFlags.surjective.forall.mpr fun f => (h f).trans (h' f).symm)

end FlagSet

/-! ## Nets -/

/-- The guard of the renamed predicate. -/
def Guard.rename (onNodes : Nat → Nat) (guard : Guard) : Guard :=
  { guard with predicate := onNodes guard.predicate }

/-- The edge to the renamed target. -/
def Dependency.rename (onNodes : Nat → Nat) (d : Dependency) : Dependency :=
  ⟨onNodes d.target, d.mandatory, d.guard.map (Guard.rename onNodes)⟩

namespace Dependency

variable {rename : Nat → Nat} {d : Dependency}

@[simp] theorem guard_rename_eq_none : (d.rename rename).guard = none ↔ d.guard = none :=
  Option.map_eq_none_iff

@[simp] theorem isSome_guard_rename : (d.rename rename).guard.isSome = d.guard.isSome :=
  Option.isSome_map

theorem exists_guard_rename {P : Guard → Prop} :
    (∃ g, (d.rename rename).guard = some g ∧ P g) ↔
      ∃ g, d.guard = some g ∧ P (g.rename rename) := by
  simp [Dependency.rename, Option.map_eq_some_iff]

end Dependency

namespace Net

/-- What is given of the nodes and flags of a net is the same in another one, up to their names. -/
structure Renames (onNodes onFlags : Nat ≃ Nat) (net other : Net) : Prop where
  lt_size_iff : ∀ i, onNodes i < other.size ↔ i < net.size
  isDynamic : ∀ i, (other.node (onNodes i)).isDynamic = (net.node i).isDynamic
  isBinding : ∀ i, (other.node (onNodes i)).isBinding = (net.node i).isBinding
  flag_iff : ∀ i f, (other.node (onNodes i)).flag = some (onFlags f) ↔ (net.node i).flag = some f
  requirementFlag?_iff : ∀ i b f,
    (other.node (onNodes i)).requirementFlag? b = some (onFlags f) ↔
      (net.node i).requirementFlag? b = some f
  predicate : ∀ i, (other.node (onNodes i)).predicate = (net.node i).predicate.map onNodes
  dependencies : ∀ i, (other.node (onNodes i)).dependencies =
    (net.node i).dependencies.map (Dependency.rename onNodes)
  allFlag : other.allFlag = onFlags net.allFlag

namespace Renames

variable {net other : Net} (h : Renames onNodes onFlags net other) {i : Nat}
include h

theorem predicate_iff {p : Nat} :
    (other.node (onNodes i)).predicate = some (onNodes p) ↔ (net.node i).predicate = some p := by
  rw [h.predicate]
  exact (Option.map_injective onNodes.injective).eq_iff' rfl

theorem forall_dependency {P : Dependency → Prop} :
    (∀ d ∈ (other.node (onNodes i)).dependencies, P d) ↔
      ∀ d ∈ (net.node i).dependencies, P (d.rename onNodes) := by
  rw [h.dependencies]
  exact List.forall_mem_map

theorem exists_dependency {P : Dependency → Prop} :
    (∃ d ∈ (other.node (onNodes i)).dependencies, P d) ↔
      ∃ d ∈ (net.node i).dependencies, P (d.rename onNodes) := by
  rw [h.dependencies]
  simp only [List.mem_map, exists_exists_and_eq_and]

/-- What is said of the edges to a node, said of the edges to its image. -/
theorem exists_dependant {P : Nat → Dependency → Prop} :
    (∃ m, ∃ d ∈ (other.node m).dependencies, d.target = onNodes i ∧ P m d) ↔
      ∃ m, ∃ d ∈ (net.node m).dependencies, d.target = i ∧ P (onNodes m) (d.rename onNodes) := by
  rw [onNodes.surjective.exists]
  refine exists_congr fun m => h.exists_dependency.trans (exists_congr fun d => ?_)
  exact and_congr_right fun _ => and_congr_left' onNodes.injective.eq_iff

variable (hw : net.WellFormed) (hw' : other.WellFormed)
include hw hw'

/-- The image of a node is invalid under the images of the flags. -/
theorem renames_invalid (i : Nat) :
    FlagSet.Renames onFlags (net.node i).invalid (other.node (onNodes i)).invalid := by
  intro f
  induction i using hw.induction_targets with
  | step i ih =>
    by_cases hi : i < net.size
    · rw [hw.mem_invalid i hi, hw'.mem_invalid _ ((h.lt_size_iff i).mpr hi), h.allFlag, h.flag_iff,
        onFlags.injective.eq_iff, h.exists_dependency]
      refine or_congr_right (or_congr_right (exists_congr fun d => and_congr_right fun hd => ?_))
      exact ih d hd
    · rw [node_of_size_le (Nat.le_of_not_lt hi),
        node_of_size_le (Nat.le_of_not_lt fun hi' => hi ((h.lt_size_iff i).mp hi'))]
      exact FlagSet.renames_empty f

/-- The image of a node may be needed under the images of the flags. -/
theorem renames_conditionalRead (i : Nat) :
    FlagSet.Renames onFlags (net.node i).conditionalRead
      (other.node (onNodes i)).conditionalRead := by
  intro f
  induction i using hw.induction_dependants with
  | step i ih =>
    by_cases hi : i < net.size
    · rw [hw.mem_conditionalRead i hi, hw'.mem_conditionalRead _ ((h.lt_size_iff i).mpr hi),
        h.isBinding, h.renames_invalid hw hw' i f, h.exists_dependant]
      refine or_congr_right (exists_congr fun m => exists_congr fun d => and_congr_right fun hd =>
        and_congr_right fun htarget => or_congr ?_ ?_)
      · rw [Dependency.guard_rename_eq_none, ih m d hd htarget]
      · rw [Dependency.exists_guard_rename]
        exact exists_congr fun g => and_congr_right fun _ => h.requirementFlag?_iff m g.branch f
    · rw [node_of_size_le (Nat.le_of_not_lt hi),
        node_of_size_le (Nat.le_of_not_lt fun hi' => hi ((h.lt_size_iff i).mp hi'))]
      exact FlagSet.renames_empty f

/-- The image of a requirement is the requirement of the same branch. -/
theorem requirement?_iff (f c : Nat) (b : Bool) :
    other.flags.requirement? (onFlags f) = some (onNodes c, b) ↔
      net.flags.requirement? f = some (c, b) := by
  rw [hw.requirement_iff, hw'.requirement_iff, h.requirementFlag?_iff]

end Renames
end Net
end BindingPlan
