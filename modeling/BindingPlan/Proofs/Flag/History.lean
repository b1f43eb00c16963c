import Mathlib.Data.Finset.Basic
import Mathlib.Data.Finset.Card
import BindingPlan.Flag.Words

/-!
# Flag words are finite sets

Changes of any number of sets of flags, one after another, on the words and on finite sets of
natural numbers. The words may have any lengths: a set that a member was removed from keeps its
words, and sets of different lengths are united, intersected and compared.

Main definitions:

* `SetChange.history`: a sequence of changes of several sets, with the reports of each.
* `FlagWords.Represents`: the words have the members of a finite set.

Main results:

* `FlagWords.Represents.change`: one change of words is the change of the sets that they represent,
  and reports the same.
* `FlagWords.Represents.history`: so is every sequence of changes.
* `FlagWords.history_represents`: starting with empty sets, everything that can be asked about the
  words has the answer of the sets.
-/

namespace BindingPlan

/-- What can be done to one of several sets; another set is given by its number. -/
inductive SetChange where
  | insert (flag : Nat)
  | erase (flag : Nat)
  | single (flag : Nat)
  | ofList (flags : List Nat)
  | clear
  | union (other : Nat)
  | inter (other : Nat)
  | diff (other : Nat)
deriving DecidableEq, Repr

namespace SetChange

variable {σ : Type}

/-- Changes one after another, each of the set with the given number, with their reports. -/
def history (change : (Nat → σ) → Nat → SetChange → Option Bool × σ) :
    (Nat → σ) → List (Nat × SetChange) → List (Option Bool) × (Nat → σ)
  | sets, [] => ([], sets)
  | sets, (i, c) :: changes =>
    let (report, changed) := change sets i c
    let (reports, sets) := history change (Function.update sets i changed) changes
    (report :: reports, sets)

/-- A change of finite sets: an insertion reports whether the flag is new, a removal whether there
was one. -/
def ofMembers (sets : Nat → Finset ℕ) (i : Nat) : SetChange → Option Bool × Finset ℕ
  | insert flag => (some (decide (flag ∉ sets i)), Insert.insert flag (sets i))
  | erase flag => (some (decide (flag ∈ sets i)), (sets i).erase flag)
  | single flag => (none, {flag})
  | ofList flags => (none, flags.toFinset)
  | clear => (none, ∅)
  | union other => (none, sets i ∪ sets other)
  | inter other => (none, sets i ∩ sets other)
  | diff other => (none, sets i \ sets other)

/-- The change of words. -/
def ofWords (sets : Nat → FlagWords) (i : Nat) : SetChange → Option Bool × FlagWords
  | insert flag => let (fresh, changed) := (sets i).insert flag; (some fresh, changed)
  | erase flag => let (present, changed) := (sets i).erase flag; (some present, changed)
  | single flag => (none, .single flag)
  | ofList flags => (none, .ofList flags)
  | clear => (none, .empty)
  | union other => (none, (sets i).union (sets other))
  | inter other => (none, (sets i).inter (sets other))
  | diff other => (none, (sets i).diff (sets other))

end SetChange

namespace FlagWords

variable {s t : FlagWords} {members others : Finset ℕ}

/-- The set has the members. -/
def Represents (s : FlagWords) (members : Finset ℕ) : Prop :=
  ∀ flag, s.contains flag = decide (flag ∈ members)

theorem represents_empty : empty.Represents ∅ := fun flag => by simp

/-! ## Changes -/

theorem represents_foldl_insert (flags : List Nat) (h : s.Represents members) :
    (flags.foldl (fun s flag => (s.insert flag).2) s).Represents (members ∪ flags.toFinset) := by
  induction flags generalizing s members with
  | nil => simpa using h
  | cons flag flags ih =>
    have hinsert : (s.insert flag).2.Represents (members ∪ {flag}) := fun other => by
      simp [h other, Bool.or_comm]
    simpa [Finset.union_assoc] using ih hinsert

theorem represents_ofList (flags : List Nat) : (ofList flags).Represents flags.toFinset := by
  have hfold := represents_foldl_insert flags represents_empty
  rwa [Finset.empty_union] at hfold

/-- One change of words is the change of the sets that they represent. -/
theorem Represents.change {sets : Nat → FlagWords} {memberSets : Nat → Finset ℕ}
    (h : ∀ i, (sets i).Represents (memberSets i)) (i : Nat) (c : SetChange) :
    (SetChange.ofWords sets i c).1 = (SetChange.ofMembers memberSets i c).1 ∧
      (SetChange.ofWords sets i c).2.Represents (SetChange.ofMembers memberSets i c).2 := by
  cases c with
  | insert flag =>
    refine ⟨?_, fun other => ?_⟩
    · simp [SetChange.ofWords, SetChange.ofMembers, h i flag]
    · simp [SetChange.ofWords, SetChange.ofMembers, h i other, Bool.or_comm]
  | erase flag =>
    refine ⟨?_, fun other => ?_⟩
    · simp [SetChange.ofWords, SetChange.ofMembers, h i flag]
    · simp [SetChange.ofWords, SetChange.ofMembers, h i other, Bool.and_comm]
  | single flag => exact ⟨rfl, fun other => by simp [SetChange.ofWords, SetChange.ofMembers]⟩
  | ofList flags => exact ⟨rfl, represents_ofList flags⟩
  | clear => exact ⟨rfl, represents_empty⟩
  | union other => exact ⟨rfl, fun flag => by
      simp [SetChange.ofWords, SetChange.ofMembers, h i flag, h other flag]⟩
  | inter other => exact ⟨rfl, fun flag => by
      simp [SetChange.ofWords, SetChange.ofMembers, h i flag, h other flag]⟩
  | diff other => exact ⟨rfl, fun flag => by
      simp [SetChange.ofWords, SetChange.ofMembers, h i flag, h other flag]⟩

/-- And so is every sequence of changes. -/
theorem Represents.history {sets : Nat → FlagWords} {memberSets : Nat → Finset ℕ}
    (h : ∀ i, (sets i).Represents (memberSets i)) (changes : List (Nat × SetChange)) :
    (SetChange.history SetChange.ofWords sets changes).1 =
        (SetChange.history SetChange.ofMembers memberSets changes).1 ∧
      ∀ i, ((SetChange.history SetChange.ofWords sets changes).2 i).Represents
        ((SetChange.history SetChange.ofMembers memberSets changes).2 i) := by
  induction changes generalizing sets memberSets with
  | nil => exact ⟨rfl, h⟩
  | cons step changes ih =>
    obtain ⟨i, c⟩ := step
    obtain ⟨hreport, hchanged⟩ := Represents.change h i c
    have hsets : ∀ k, (Function.update sets i (SetChange.ofWords sets i c).2 k).Represents
        (Function.update memberSets i (SetChange.ofMembers memberSets i c).2 k) := by
      intro k
      by_cases hk : k = i
      · subst hk
        simpa using hchanged
      · simpa [hk] using h k
    obtain ⟨hreports, hafter⟩ := ih hsets
    exact ⟨congrArg₂ List.cons hreport hreports, hafter⟩

/-! ## Answers -/

section
variable (h : s.Represents members) (h' : t.Represents others)
include h

theorem Represents.mem_toList_iff (flag : Nat) : flag ∈ s.toList ↔ flag ∈ members := by
  simp [h flag]

theorem Represents.size_eq : s.size = members.card := by
  have hset : s.toList.toFinset = members := by
    ext flag
    rw [List.mem_toFinset, h.mem_toList_iff]
  rw [← length_toList, ← hset, List.toFinset_card_of_nodup (pairwise_toList s).nodup]

theorem Represents.isEmpty_eq : s.isEmpty = decide (members = ∅) := by
  rw [Bool.eq_iff_iff, isEmpty_iff, decide_eq_true_iff, Finset.eq_empty_iff_forall_notMem]
  simp [h _]

include h'

theorem Represents.isSubset_eq : s.isSubset t = decide (members ⊆ others) := by
  rw [Bool.eq_iff_iff, isSubset_iff, decide_eq_true_iff, Finset.subset_iff]
  simp [h _, h' _]

theorem Represents.meets_eq : s.meets t = decide (members ∩ others).Nonempty := by
  rw [Bool.eq_iff_iff, meets_iff, decide_eq_true_iff, Finset.Nonempty]
  simp [h _, h' _]

theorem Represents.same_eq : s.same t = decide (members = others) := by
  rw [Bool.eq_iff_iff, same_iff, decide_eq_true_iff, Finset.ext_iff]
  simp [h _, h' _]

end

/-- After any changes of any number of empty sets, the words have the members of the sets that the
same changes make, every insertion and removal has reported the same, and every question about the
words has the answer of the sets, whatever the numbers of words. -/
theorem history_represents (changes : List (Nat × SetChange)) :
    let (reports, sets) := SetChange.history SetChange.ofWords (fun _ => empty) changes
    let (expected, members) := SetChange.history SetChange.ofMembers (fun _ => ∅) changes
    reports = expected ∧
      (∀ i, (∀ flag, (sets i).contains flag = decide (flag ∈ members i)) ∧
        (∀ flag, flag ∈ (sets i).toList ↔ flag ∈ members i) ∧
        (sets i).toList.Pairwise (· < ·) ∧
        (sets i).size = (members i).card ∧
        (sets i).isEmpty = decide (members i = ∅)) ∧
      ∀ i j, (sets i).isSubset (sets j) = decide (members i ⊆ members j) ∧
        (sets i).meets (sets j) = decide (members i ∩ members j).Nonempty ∧
        (sets i).same (sets j) = decide (members i = members j) := by
  obtain ⟨hreports, h⟩ := Represents.history (fun _ => represents_empty) changes
  exact ⟨hreports,
    fun i => ⟨h i, (h i).mem_toList_iff, pairwise_toList _, (h i).size_eq, (h i).isEmpty_eq⟩,
    fun i j => ⟨(h i).isSubset_eq (h j), (h i).meets_eq (h j), (h i).same_eq (h j)⟩⟩

/-- Two words are left behind by a flag that was removed, and do not count. -/
example :
    let wide := (((single 130).erase 130).2.insert 1).2
    wide.words.length = 3 ∧ (single 1).words.length = 1 ∧ wide.same (single 1) = true ∧
      wide.toList = [1] := by
  decide +kernel

end FlagWords
end BindingPlan
