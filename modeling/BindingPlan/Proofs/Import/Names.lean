import BindingPlan.Import.Table
import BindingPlan.Proofs.Class.Registry
import BindingPlan.Proofs.Decimal.Written

/-!
# Names of classes that are imported on demand

A class that is imported on demand gets its simple name, or the simple name with a number behind it.
The names that were there keep their classes.

Main results:

* `ImportTable.Extends`: a table after classes were imported on demand.
* `ImportTable.Extends.nameFor`: importing one more class on demand.
-/

namespace BindingPlan

/-- The name is the wanted one, maybe with a number behind it. -/
def Numbers (wanted name : String) : Prop :=
  wanted.toList <+: name.toList ∧ AllDigits (name.toList.drop wanted.toList.length)

instance (wanted name : String) : Decidable (Numbers wanted name) :=
  inferInstanceAs (Decidable (_ ∧ ∀ c ∈ name.toList.drop wanted.toList.length, c.isDigit = true))

theorem numbers_append {wanted number : String} (h : AllDigits number.toList) :
    Numbers wanted (wanted ++ number) := by
  unfold Numbers
  rw [String.toList_append, List.drop_left]
  exact ⟨List.prefix_append _ _, h⟩

theorem numbers_self (wanted : String) : Numbers wanted wanted := by
  unfold Numbers
  rw [List.drop_length]
  exact ⟨List.prefix_rfl, fun _ hc => nomatch hc⟩

namespace ImportTable

variable {classes : ClassRegistry} {table next : ImportTable} {wanted qualified name : String}

theorem numbers_freeName (table : ImportTable) (wanted qualified : String) :
    Numbers wanted (table.freeName wanted qualified) := by
  unfold freeName
  split
  · exact numbers_self wanted
  · dsimp only
    cases hfound : List.find? (table.fits qualified) _ with
    | none => exact numbers_self wanted
    | some name =>
      obtain ⟨n, -, rfl⟩ := List.mem_map.mp (List.mem_of_find?_eq_some hfound)
      refine numbers_append ?_
      rw [Nat.toString_eq_repr, Nat.toList_repr]
      exact allDigits_toDigits n

theorem get?_append (i : Import) : get? ⟨table.entries ++ [i]⟩ name =
    (table.get? name).or (if i.shortName = name then some i.qualified else none) := by
  unfold get?
  rw [List.find?_append]
  cases List.find? _ table.entries with
  | some found => rfl
  | none =>
    rw [List.find?_singleton]
    split <;> simp_all

/-- The classes behind names after one more class was imported. -/
theorem get?_add : (table.add wanted qualified).2.get? name = (table.get? name).or
    (if table.freeName wanted qualified = name then some qualified else none) := by
  unfold add
  dsimp only
  split
  · next other hother =>
    split
    · next heq => rw [← heq, hother, Option.some_or]
    · exact (Option.or_none).symm
  · exact get?_append _

/-- The table after classes were imported on demand. -/
structure Extends (classes : ClassRegistry) (table next : ImportTable) : Prop where
  keeps : ∀ name qualified, table.get? name = some qualified → next.get? name = some qualified
  added : ∀ name qualified, next.get? name = some qualified → table.get? name = some qualified ∨
    Numbers (TypeName.simple qualified) name ∧
      ∃ type, classes.findClass qualified = .ok type ∧ type.name = qualified

theorem Extends.refl : Extends classes table table :=
  ⟨fun _ _ h => h, fun _ _ h => .inl h⟩

/-- A known class is imported on demand under its simple name. -/
theorem Extends.nameFor (h : Extends classes table next) {type : ClassType}
    (htype : classes.findClass type.name = .ok type) :
    Extends classes table (next.nameFor type.name (TypeName.simple type.name)).2 := by
  unfold ImportTable.nameFor
  split
  · exact h
  · constructor
    · intro name qualified hname
      rw [get?_add, h.keeps name qualified hname, Option.some_or]
    · intro name qualified hname
      rw [get?_add] at hname
      obtain hname | ⟨-, hname⟩ := Option.or_eq_some_iff.mp hname
      · exact h.added name qualified hname
      · split at hname
        · next heq =>
          cases hname
          exact .inr ⟨heq ▸ numbers_freeName _ _ _, type, htype, rfl⟩
        · cases hname

end ImportTable
end BindingPlan
