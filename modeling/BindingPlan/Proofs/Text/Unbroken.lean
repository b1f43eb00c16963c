import Mathlib.Data.List.Basic

/-!
# Where a part of a text ends

Two texts that both consist of a part and a rest are split at the same place if no rest could start
inside of a part.

Main results:

* `Unbroken.append_inj`: unbroken parts of one text, each up to a possible rest, are equal.
* `append_cons_inj`: the same for parts up to a mark that they do not hold.
-/

namespace BindingPlan

variable {α : Type} {s t x y : List α} {ends : List α → Prop} {c mark : α}

/-- What may follow a text never starts inside of it. -/
def Unbroken (ends : List α → Prop) (text : List α) : Prop :=
  ∀ after, after <:+ text → after ≠ [] → ∀ rest, ¬ ends (after ++ rest)

theorem unbroken_nil : Unbroken ends [] :=
  fun _ hsuffix hne => absurd (List.suffix_nil.mp hsuffix) hne

theorem Unbroken.cons (hc : ∀ rest, ¬ ends (c :: (s ++ rest))) (hs : Unbroken ends s) :
    Unbroken ends (c :: s) := by
  intro after hsuffix hne rest
  rcases List.suffix_cons_iff.mp hsuffix with rfl | hsuffix
  · exact hc rest
  · exact hs after hsuffix hne rest

/-- Characters that no rest starts with can be put in front. -/
theorem Unbroken.append (hs : ∀ c ∈ s, ∀ rest, ¬ ends (c :: rest)) (ht : Unbroken ends t) :
    Unbroken ends (s ++ t) := by
  induction s with
  | nil => exact ht
  | cons c s ih =>
    refine .cons (fun rest => hs c List.mem_cons_self _) (ih fun d hd => ?_)
    exact hs d (List.mem_cons_of_mem _ hd)

theorem Unbroken.of_forall (hs : ∀ c ∈ s, ∀ rest, ¬ ends (c :: rest)) : Unbroken ends s := by
  have h := Unbroken.append hs unbroken_nil
  rwa [List.append_nil] at h

theorem Unbroken.append_inj (hs : Unbroken ends s) (ht : Unbroken ends t) (hx : ends x)
    (hy : ends y) (h : s ++ x = t ++ y) : s = t ∧ x = y := by
  rcases List.append_eq_append_iff.mp h with ⟨more, rfl, rfl⟩ | ⟨more, rfl, rfl⟩
  · by_cases hmore : more = []
    · subst hmore
      simp
    · exact absurd hx (ht more (List.suffix_append s more) hmore y)
  · by_cases hmore : more = []
    · subst hmore
      simp
    · exact absurd hy (hs more (List.suffix_append t more) hmore x)

theorem append_cons_inj (hs : mark ∉ s) (ht : mark ∉ t) (h : s ++ mark :: x = t ++ mark :: y) :
    s = t ∧ x = y := by
  have hunbroken {part : List α} (hpart : mark ∉ part) :
      Unbroken (fun rest => rest.head? = some mark) part := by
    refine .of_forall fun c hc rest heq => hpart ?_
    rwa [← Option.some.inj heq]
  obtain ⟨hpart, hrest⟩ := (hunbroken hs).append_inj (hunbroken ht) rfl rfl h
  exact ⟨hpart, (List.cons.inj hrest).2⟩

end BindingPlan
