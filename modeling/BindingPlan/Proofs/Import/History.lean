import BindingPlan.Proofs.Import.Names
import Mathlib.Data.List.Nodup
import Mathlib.Data.List.Perm.Subperm

/-!
# Histories of an import table

Classes are imported under wanted names, and names of classes are asked for. A table of `n` entries
takes at most `n` of the numbered names, so one of the first `n + 1` is free, and the search for a
free name always ends with one.

Main results:

* `ImportTable.gets_freeName`: the name that a class gets is the first free one.
* `ImportTable.get?_add_self`: from then on this name stands for the class.
* `ImportTable.nameFor_eq`: the earliest name of a class is used again.
* `ImportTable.law_after`: these hold after every history of requests, and none of the requests
  changes or removes an entry.
-/

namespace BindingPlan

namespace ImportTable

variable {table next : ImportTable} {wanted qualified name : String}

/-! ## The free names -/

/-- The name is unused or stands for the class already. -/
def Free (table : ImportTable) (qualified name : String) : Prop :=
  table.get? name = none ∨ table.get? name = some qualified

/-- The name that a class gets: the wanted one if it is free, and otherwise the wanted one with the
least number behind it, from one on, that makes it free. -/
def Gets (table : ImportTable) (wanted qualified name : String) : Prop :=
  table.Free qualified wanted ∧ name = wanted ∨
    ¬ table.Free qualified wanted ∧ ∃ n ≥ 1, name = wanted ++ toString n ∧
      table.Free qualified name ∧ ∀ m ≥ 1, m < n → ¬ table.Free qualified (wanted ++ toString m)

theorem Gets.free (h : table.Gets wanted qualified name) : table.Free qualified name := by
  obtain ⟨hfree, rfl⟩ | ⟨-, n, -, -, hfree, -⟩ := h
  · exact hfree
  · exact hfree

theorem fits_iff : table.fits qualified name = true ↔ table.Free qualified name := by
  unfold fits Free
  cases table.get? name with
  | none => simp
  | some other => simp

/-- A name that is not free is the name of an entry. -/
theorem mem_names_of_not_free (h : ¬ table.Free qualified name) :
    name ∈ table.entries.map Import.shortName := by
  unfold Free get? at h
  cases hfound : table.entries.find? (·.shortName = name) with
  | none => simp [hfound] at h
  | some entry =>
    have hname := List.find?_some hfound
    exact List.mem_map.mpr ⟨entry, List.mem_of_find?_eq_some hfound, of_decide_eq_true hname⟩

theorem numbered_injective (wanted : String) :
    Function.Injective fun n : Nat => wanted ++ toString n := by
  intro m n h
  have hlist := congrArg String.toList h
  simp only [String.toList_append, List.append_cancel_left_eq, Nat.toString_eq_repr,
    Nat.toList_repr] at hlist
  exact toDigits_ten_inj hlist

/-- Of one number more than the table has entries, at least one makes a free name. -/
theorem exists_free (table : ImportTable) (wanted qualified : String) :
    ∃ n ∈ List.range' 1 (table.entries.length + 1),
      table.Free qualified (wanted ++ toString n) := by
  by_contra hnone
  push Not at hnone
  -- otherwise all these names are names of entries, and there are too few of these
  have hsub : (List.range' 1 (table.entries.length + 1)).map (fun n => wanted ++ toString n) ⊆
      table.entries.map Import.shortName := by
    intro name hname
    obtain ⟨n, hn, rfl⟩ := List.mem_map.mp hname
    exact mem_names_of_not_free (hnone n hn)
  have hnodup := List.Nodup.map (numbered_injective wanted)
    (List.nodup_range' (s := 1) (n := table.entries.length + 1))
  have hlength := (hnodup.subperm hsub).length_le
  simp only [List.length_map, List.length_range'] at hlength
  omega

/-- The name that a class gets is the first free one. -/
theorem gets_freeName (table : ImportTable) (wanted qualified : String) :
    table.Gets wanted qualified (table.freeName wanted qualified) := by
  unfold freeName
  split
  · next hfits => exact .inl ⟨fits_iff.mp hfits, rfl⟩
  · next hfits =>
    rw [fits_iff] at hfits
    dsimp only
    rw [List.find?_map]
    obtain ⟨least, hleast⟩ : ∃ least, (List.range' 1 (table.entries.length + 1)).find?
        (table.fits qualified ∘ fun n => wanted ++ toString n) = some least := by
      obtain ⟨n, hn, hfree⟩ := exists_free table wanted qualified
      exact Option.isSome_iff_exists.mp (List.find?_isSome.mpr ⟨n, hn, fits_iff.mpr hfree⟩)
    rw [hleast]
    obtain ⟨hfree, hmem, hbefore⟩ := List.find?_range'_eq_some.mp hleast
    refine .inr ⟨hfits, least, (List.mem_range'_1.mp hmem).1, rfl, fits_iff.mp hfree, ?_⟩
    intro m hm hlt hfree'
    have hnot := hbefore m hm hlt
    rw [Function.comp_apply, fits_iff.mpr hfree'] at hnot
    cases hnot

/-! ## One request -/

@[simp] theorem add_fst : (table.add wanted qualified).1 = table.freeName wanted qualified := by
  unfold add
  dsimp only
  split <;> rfl

/-- The name that a class got stands for it. -/
theorem get?_add_self (table : ImportTable) (wanted qualified : String) :
    (table.add wanted qualified).2.get? (table.freeName wanted qualified) = some qualified := by
  rw [get?_add, if_pos rfl]
  obtain hfree | hfree := (gets_freeName table wanted qualified).free
  · rw [hfree, Option.none_or]
  · rw [hfree, Option.some_or]

theorem prefix_add (table : ImportTable) (wanted qualified : String) :
    table.entries <+: (table.add wanted qualified).2.entries := by
  unfold add
  dsimp only
  split
  · exact List.prefix_rfl
  · exact List.prefix_append _ _

/-- Importing a class adds entries of this class only. -/
theorem mem_or_of_mem_add {entry : Import} (h : entry ∈ (table.add wanted qualified).2.entries) :
    entry ∈ table.entries ∨ entry.qualified = qualified := by
  unfold add at h
  dsimp only at h
  split at h
  · exact .inl h
  · refine (List.mem_append.mp h).imp_right fun h => ?_
    rw [List.mem_singleton.mp h]

/-- A class that has a name keeps its earliest one. -/
theorem nameFor_eq {earlier later : List Import}
    (hentries : table.entries = earlier ++ ⟨name, qualified⟩ :: later)
    (hfirst : ∀ i ∈ earlier, i.qualified ≠ qualified) (wanted : String) :
    table.nameFor qualified wanted = (name, table) := by
  have hfound : table.entries.find? (·.qualified = qualified) = some ⟨name, qualified⟩ := by
    refine List.find?_eq_some_iff_append.mpr ⟨decide_eq_true rfl, earlier, later, hentries, ?_⟩
    intro i hi
    simp [hfirst i hi]
  unfold nameFor shortNameOf?
  rw [hfound]
  rfl

/-- A class without a name is imported as wanted. -/
theorem nameFor_eq_add (hnone : ∀ i ∈ table.entries, i.qualified ≠ qualified) (wanted : String) :
    table.nameFor qualified wanted = table.add wanted qualified := by
  have hfound : table.entries.find? (·.qualified = qualified) = none :=
    List.find?_eq_none.mpr fun i hi => by simp [hnone i hi]
  unfold nameFor shortNameOf?
  rw [hfound]
  rfl

theorem prefix_nameFor (table : ImportTable) (qualified wanted : String) :
    table.entries <+: (table.nameFor qualified wanted).2.entries := by
  unfold nameFor
  split
  · exact List.prefix_rfl
  · exact prefix_add table wanted qualified

/-- A table that only grew at its end gives every name the class that it had. -/
theorem get?_of_prefix (h : table.entries <+: next.entries)
    (hname : table.get? name = some qualified) : next.get? name = some qualified := by
  obtain ⟨added, hadded⟩ := h
  unfold get? at hname ⊢
  rw [← hadded, List.find?_append]
  obtain ⟨entry, hentry, rfl⟩ := Option.map_eq_some_iff.mp hname
  rw [hentry]
  rfl

/-! ## Histories -/

/-- What is asked of a table. -/
inductive Request where
  | add (wanted qualified : String)
  | nameFor (qualified wanted : String)

/-- The table after a request. -/
def Request.run (table : ImportTable) : Request → ImportTable
  | .add wanted qualified => (table.add wanted qualified).2
  | .nameFor qualified wanted => (table.nameFor qualified wanted).2

/-- The table after a history that starts with the empty one. -/
def after (requests : List Request) : ImportTable :=
  requests.foldl Request.run .empty

/-- A request keeps every entry in its place. -/
theorem Request.prefix_run (request : Request) (table : ImportTable) :
    table.entries <+: (Request.run table request).entries := by
  cases request with
  | add wanted qualified => exact prefix_add table wanted qualified
  | nameFor qualified wanted => exact prefix_nameFor table qualified wanted

/-- So does a history of requests. -/
theorem prefix_foldl (requests : List Request) (table : ImportTable) :
    table.entries <+: (requests.foldl Request.run table).entries := by
  induction requests generalizing table with
  | nil => exact List.prefix_rfl
  | cons request requests ih => exact (request.prefix_run table).trans (ih _)

/-- The law of the import table. Whatever was asked of it, whatever is asked later keeps each entry
in its place and each name with its class. A class that is imported gets the first free name, which
stands for it from then on. A class that has a name keeps its earliest one, without a change to the
table, and one that has none is imported. -/
theorem law_after (requests : List Request) :
    let table := after requests
    (∀ later, table.entries <+: (after (requests ++ later)).entries ∧
      ∀ name qualified, table.get? name = some qualified →
        (after (requests ++ later)).get? name = some qualified) ∧
    (∀ wanted qualified, table.Gets wanted qualified (table.add wanted qualified).1 ∧
      (table.add wanted qualified).2.get? (table.add wanted qualified).1 = some qualified) ∧
    ∀ qualified wanted,
      (∀ earlier name later, table.entries = earlier ++ ⟨name, qualified⟩ :: later →
        (∀ i ∈ earlier, i.qualified ≠ qualified) →
        table.nameFor qualified wanted = (name, table)) ∧
      ((∀ i ∈ table.entries, i.qualified ≠ qualified) →
        table.nameFor qualified wanted = table.add wanted qualified) := by
  intro table
  refine ⟨fun later => ?_, fun wanted qualified => ?_, fun qualified wanted => ⟨?_, ?_⟩⟩
  · have hpre : table.entries <+: (after (requests ++ later)).entries := by
      unfold after
      rw [List.foldl_append]
      exact prefix_foldl later table
    exact ⟨hpre, fun name qualified hname => get?_of_prefix hpre hname⟩
  · rw [add_fst]
    exact ⟨gets_freeName table wanted qualified, get?_add_self table wanted qualified⟩
  · intro earlier name later hentries hfirst
    exact nameFor_eq hentries hfirst wanted
  · intro hnone
    exact nameFor_eq_add hnone wanted

/-- A wanted name with a number can be taken before the number is needed. -/
example : after [.add "View1" "a.View1", .add "View" "a.View", .add "View" "b.View",
    .nameFor "b.View" "View"] =
    ⟨[⟨"View1", "a.View1"⟩, ⟨"View", "a.View"⟩, ⟨"View2", "b.View"⟩]⟩ := by
  decide +kernel

end ImportTable
end BindingPlan
