import BindingPlan.Flag.Words

/-!
# Flag sets

The sets of flags that nets, reads and plans are computed with: flag words up to the words that
count as zero, so that sets with the same members are equal. Every operation is the one on the words
and is described by the membership of its result.

Main results:

* `FlagSet.ext`: sets with the same members are equal.
* `FlagSet.contains_insert`, `contains_erase`, `contains_union`, `contains_inter`, `contains_diff`:
  the members of each result.
* `FlagSet.isSubset_iff`, `meets_iff`, `isEmpty_iff`: what the tests decide.
* `FlagSet.mem_toList`, `length_toList`: the list and the number of the members.
-/

namespace BindingPlan

/-- Words stand for the same set if they have the same members. -/
instance FlagWords.setoid : Setoid FlagWords where
  r s t := s.same t = true
  iseqv :=
    { refl := fun s => (same_iff s s).mpr fun _ => rfl
      symm := fun {s t} st => (same_iff t s).mpr fun flag => ((same_iff s t).mp st flag).symm
      trans := fun {s t u} st tu => (same_iff s u).mpr fun flag =>
        ((same_iff s t).mp st flag).trans ((same_iff t u).mp tu flag) }

theorem FlagWords.equiv_iff {s t : FlagWords} :
    s ≈ t ↔ ∀ flag, s.contains flag = t.contains flag :=
  same_iff s t

/-- Whether words stand for the same set is decided word by word. -/
instance (s t : FlagWords) : Decidable (s ≈ t) :=
  inferInstanceAs (Decidable (s.same t = true))

/-- A finite set of flags (`FlagSet`). -/
def FlagSet : Type :=
  Quotient FlagWords.setoid

namespace FlagSet

/-- The set that words stand for. -/
def ofWords (s : FlagWords) : FlagSet :=
  Quotient.mk FlagWords.setoid s

theorem ofWords_eq {s t : FlagWords} (same : ∀ flag, s.contains flag = t.contains flag) :
    ofWords s = ofWords t :=
  Quotient.sound (FlagWords.equiv_iff.mpr same)

/-- An operation whose result has members that depend on the members of the set only. -/
def mapWords (f : FlagWords → FlagWords)
    (respects : ∀ s t, s ≈ t → ∀ flag, (f s).contains flag = (f t).contains flag) :
    FlagSet → FlagSet :=
  Quotient.lift (fun s => ofWords (f s)) fun s t same => ofWords_eq (respects s t same)

/-- An operation of two sets whose result has members that depend on their members only. -/
def mapWords₂ (f : FlagWords → FlagWords → FlagWords)
    (respects : ∀ s t s' t', s ≈ s' → t ≈ t' →
      ∀ flag, (f s t).contains flag = (f s' t').contains flag) :
    FlagSet → FlagSet → FlagSet :=
  Quotient.lift₂ (fun s t => ofWords (f s t)) fun s t s' t' same same' =>
    ofWords_eq (respects s t s' t' same same')

def empty : FlagSet :=
  ofWords .empty

instance : Inhabited FlagSet := ⟨empty⟩

instance : EmptyCollection FlagSet := ⟨empty⟩

instance : DecidableEq FlagSet :=
  inferInstanceAs (DecidableEq (Quotient FlagWords.setoid))

def contains (s : FlagSet) (flag : Nat) : Bool :=
  Quotient.lift (·.contains flag) (fun _ _ same => FlagWords.equiv_iff.mp same flag) s

def single (flag : Nat) : FlagSet :=
  ofWords (.single flag)

def union : FlagSet → FlagSet → FlagSet :=
  mapWords₂ .union fun s t s' t' same same' flag => by
    simp [FlagWords.equiv_iff.mp same, FlagWords.equiv_iff.mp same']

def inter : FlagSet → FlagSet → FlagSet :=
  mapWords₂ .inter fun s t s' t' same same' flag => by
    simp [FlagWords.equiv_iff.mp same, FlagWords.equiv_iff.mp same']

/-- The members of the first set that are not in the second. -/
def diff : FlagSet → FlagSet → FlagSet :=
  mapWords₂ .diff fun s t s' t' same same' flag => by
    simp [FlagWords.equiv_iff.mp same, FlagWords.equiv_iff.mp same']

def insert (s : FlagSet) (flag : Nat) : FlagSet :=
  s.mapWords (fun s => (s.insert flag).2) fun s t same other => by
    simp [FlagWords.equiv_iff.mp same]

def erase (s : FlagSet) (flag : Nat) : FlagSet :=
  s.mapWords (fun s => (s.erase flag).2) fun s t same other => by
    simp [FlagWords.equiv_iff.mp same]

def ofList (flags : List Nat) : FlagSet :=
  flags.foldl insert empty

def isEmpty : FlagSet → Bool :=
  Quotient.lift (·.isEmpty) fun s t same => Bool.eq_iff_iff.mpr <| by
    simp only [FlagWords.isEmpty_iff, FlagWords.equiv_iff.mp same]

/-- Every member of the first set is in the second. -/
def isSubset : FlagSet → FlagSet → Bool :=
  Quotient.lift₂ (·.isSubset ·) fun s t s' t' same same' => Bool.eq_iff_iff.mpr <| by
    simp only [FlagWords.isSubset_iff, FlagWords.equiv_iff.mp same, FlagWords.equiv_iff.mp same']

/-- The sets have a common member. -/
def meets : FlagSet → FlagSet → Bool :=
  Quotient.lift₂ (·.meets ·) fun s t s' t' same same' => Bool.eq_iff_iff.mpr <| by
    simp only [FlagWords.meets_iff, FlagWords.equiv_iff.mp same, FlagWords.equiv_iff.mp same']

/-- The members in ascending order. -/
def toList : FlagSet → List Nat :=
  Quotient.lift (·.toList) fun _ _ same => FlagWords.toList_congr (FlagWords.equiv_iff.mp same)

/-- Number of members. -/
def size : FlagSet → Nat :=
  Quotient.lift (·.size) fun s t same => by
    rw [← s.length_toList, ← t.length_toList,
      FlagWords.toList_congr (FlagWords.equiv_iff.mp same)]

/-- The members between braces. -/
def render (s : FlagSet) : String :=
  "\x7b" ++ ", ".intercalate (s.toList.map toString) ++ "\x7d"

instance : Repr FlagSet := ⟨fun s _ => s.render⟩

/-! ## Members -/

theorem ext {s t : FlagSet} (same : ∀ flag, s.contains flag = t.contains flag) : s = t := by
  induction s, t using Quotient.inductionOn₂ with
  | h s t => exact ofWords_eq same

@[simp] theorem contains_empty (flag : Nat) : empty.contains flag = false :=
  FlagWords.contains_empty flag

@[simp] theorem contains_single (flag other : Nat) :
    (single flag).contains other = decide (other = flag) :=
  FlagWords.contains_single flag other

@[simp] theorem contains_union (s t : FlagSet) (flag : Nat) :
    (s.union t).contains flag = (s.contains flag || t.contains flag) := by
  induction s, t using Quotient.inductionOn₂ with
  | h s t => exact FlagWords.contains_union s t flag

@[simp] theorem contains_inter (s t : FlagSet) (flag : Nat) :
    (s.inter t).contains flag = (s.contains flag && t.contains flag) := by
  induction s, t using Quotient.inductionOn₂ with
  | h s t => exact FlagWords.contains_inter s t flag

@[simp] theorem contains_diff (s t : FlagSet) (flag : Nat) :
    (s.diff t).contains flag = (s.contains flag && !t.contains flag) := by
  induction s, t using Quotient.inductionOn₂ with
  | h s t => exact FlagWords.contains_diff s t flag

@[simp] theorem contains_insert (s : FlagSet) (flag other : Nat) :
    (s.insert flag).contains other = (s.contains other || decide (other = flag)) := by
  induction s using Quotient.inductionOn with
  | h s => exact FlagWords.contains_insert s flag other

@[simp] theorem contains_erase (s : FlagSet) (flag other : Nat) :
    (s.erase flag).contains other = (s.contains other && !decide (other = flag)) := by
  induction s using Quotient.inductionOn with
  | h s => exact FlagWords.contains_erase s flag other

theorem isEmpty_iff (s : FlagSet) : s.isEmpty = true ↔ ∀ flag, s.contains flag = false := by
  induction s using Quotient.inductionOn with
  | h s => exact FlagWords.isEmpty_iff s

theorem isSubset_iff (s t : FlagSet) :
    s.isSubset t = true ↔ ∀ flag, s.contains flag = true → t.contains flag = true := by
  induction s, t using Quotient.inductionOn₂ with
  | h s t => exact FlagWords.isSubset_iff s t

theorem meets_iff (s t : FlagSet) :
    s.meets t = true ↔ ∃ flag, s.contains flag = true ∧ t.contains flag = true := by
  induction s, t using Quotient.inductionOn₂ with
  | h s t => exact FlagWords.meets_iff s t

@[simp] theorem mem_toList {s : FlagSet} {flag : Nat} :
    flag ∈ s.toList ↔ s.contains flag = true := by
  induction s using Quotient.inductionOn with
  | h s => exact FlagWords.mem_toList

/-- The number of members is the length of their list. -/
@[simp] theorem length_toList (s : FlagSet) : s.toList.length = s.size := by
  induction s using Quotient.inductionOn with
  | h s => exact FlagWords.length_toList s

end FlagSet
end BindingPlan
