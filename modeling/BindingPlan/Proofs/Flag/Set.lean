import BindingPlan.Flag.Set

/-!
# Membership in flag sets

`flag ∈ set` for the members of a flag set, and what the operations and tests say about them. Proofs
about nets and reads speak of members and never of bits.
-/

namespace BindingPlan
namespace FlagSet

instance : Membership Nat FlagSet := ⟨fun set flag => set.contains flag = true⟩

theorem mem_iff_contains {s : FlagSet} {flag : Nat} : flag ∈ s ↔ s.contains flag = true :=
  Iff.rfl

theorem ext_mem {s t : FlagSet} (h : ∀ flag, flag ∈ s ↔ flag ∈ t) : s = t :=
  ext fun flag => Bool.eq_iff_iff.mpr (h flag)

instance (flag : Nat) (s : FlagSet) : Decidable (flag ∈ s) :=
  inferInstanceAs (Decidable (s.contains flag = true))

@[simp] theorem not_mem_empty (flag : Nat) : flag ∉ empty := by
  simp [mem_iff_contains]

@[simp] theorem mem_single {flag other : Nat} : flag ∈ single other ↔ flag = other := by
  simp [mem_iff_contains]

@[simp] theorem mem_union {s t : FlagSet} {flag : Nat} :
    flag ∈ s.union t ↔ flag ∈ s ∨ flag ∈ t := by
  simp [mem_iff_contains]

@[simp] theorem mem_inter {s t : FlagSet} {flag : Nat} :
    flag ∈ s.inter t ↔ flag ∈ s ∧ flag ∈ t := by
  simp [mem_iff_contains]

@[simp] theorem mem_diff {s t : FlagSet} {flag : Nat} : flag ∈ s.diff t ↔ flag ∈ s ∧ flag ∉ t := by
  simp [mem_iff_contains]

@[simp] theorem isEmpty_eq_true {s : FlagSet} : s.isEmpty = true ↔ ∀ flag, flag ∉ s := by
  simp [isEmpty_iff, mem_iff_contains]

@[simp] theorem isEmpty_eq_false {s : FlagSet} : s.isEmpty = false ↔ ∃ flag, flag ∈ s := by
  rw [← Bool.not_eq_true, isEmpty_eq_true]
  simp

@[simp] theorem isSubset_eq_true {s t : FlagSet} :
    s.isSubset t = true ↔ ∀ flag, flag ∈ s → flag ∈ t :=
  isSubset_iff s t

@[simp] theorem meets_eq_true {s t : FlagSet} :
    s.meets t = true ↔ ∃ flag, flag ∈ s ∧ flag ∈ t :=
  meets_iff s t

theorem mem_foldl_insert (flags : List Nat) (own : FlagSet) {flag : Nat} :
    flag ∈ flags.foldl insert own ↔ flag ∈ own ∨ flag ∈ flags := by
  induction flags generalizing own with
  | nil => simp
  | cons f flags ih => simp [ih, mem_iff_contains, or_assoc]

@[simp] theorem mem_ofList {flags : List Nat} {flag : Nat} :
    flag ∈ ofList flags ↔ flag ∈ flags := by
  simp [ofList, mem_foldl_insert]

/-- The images of the flags. -/
def map (rename : Nat → Nat) (s : FlagSet) : FlagSet :=
  ofList (s.toList.map rename)

@[simp] theorem mem_map {rename : Nat → Nat} {s : FlagSet} {flag : Nat} :
    flag ∈ s.map rename ↔ ∃ f ∈ s, rename f = flag := by
  rw [map, mem_ofList, List.mem_map]
  simp only [mem_toList, mem_iff_contains]

/-- The members of a union over a list. -/
theorem mem_foldl_union {α : Type} (part : α → FlagSet) (list : List α) (own : FlagSet)
    {flag : Nat} :
    flag ∈ list.foldl (fun set a => set.union (part a)) own ↔
      flag ∈ own ∨ ∃ a ∈ list, flag ∈ part a := by
  induction list generalizing own with
  | nil => simp
  | cons a list ih => simp [ih, or_assoc]

end FlagSet
end BindingPlan
