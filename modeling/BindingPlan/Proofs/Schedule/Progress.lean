import BindingPlan.Proofs.Net.Flow
import BindingPlan.Schedule.Progress

/-!
# What must be read

After a refresh, a node must be read for the flags that something asks it for and that it was not
read for: its own binding, a node that needs its value and must itself be read for the flag, or a
conditional whose guard on it was released.

Main results:

* `Progress.upToDate_refresh`: a refresh brings the flags to read up to date.
* `Progress.UpToDate.flag_of_plain`, `flag_of_guard`: what a node must be read for reaches its
  targets, unless they were read for it.
* `Progress.UpToDate.released_of_requirement`: only a released conditional has its requirements
  asked for.
-/

namespace BindingPlan
namespace Progress

variable {net : Net} {progress next : Progress} {i : Nat} {flag : Nat}

theorem mark_of_size_le (h : progress.marks.size ≤ i) : progress.mark i = default := by
  simp [mark, h]

theorem mark_map {change : Nat → ReadMark → ReadMark} (i : Nat)
    (hd : progress.marks.size ≤ i → change i default = default) :
    (progress.map change).mark i = change i (progress.mark i) := by
  by_cases hi : i < progress.marks.size
  · simp [mark, map, hi]
  · have hold : progress.mark i = default := mark_of_size_le (by omega)
    rw [hold, hd (by omega)]
    exact mark_of_size_le (by simpa [map] using hi)

theorem ext_mark (hs : next.marks.size = progress.marks.size)
    (h : ∀ i < progress.marks.size, next.mark i = progress.mark i) : next = progress := by
  obtain ⟨marks⟩ := progress
  obtain ⟨nextMarks⟩ := next
  congr 1
  refine Array.ext hs fun i hi hi' => ?_
  simpa [mark, hi, hi'] using h i hi'

@[simp] theorem size_map (change : Nat → ReadMark → ReadMark) :
    (progress.map change).marks.size = progress.marks.size := by
  simp [map]

/-! ## Refreshing -/

/-- The flags to read that a refresh computes. -/
def askedTable (net : Net) (progress : Progress) : Array FlagSet :=
  sweep net.size .empty net.order.reverse (progress.askedFrom net)

/-- A refresh changes the flags to read and nothing else. -/
theorem mark_refresh (hs : progress.marks.size = net.size) (i : Nat) :
    (progress.refresh net).mark i =
      { progress.mark i with shouldRead := (progress.askedTable net).getD i .empty } := by
  refine mark_map i fun hi => ?_
  have hempty : (sweep net.size FlagSet.empty net.order.reverse
      (progress.askedFrom net)).getD i .empty = .empty := by
    rw [hs] at hi
    simp [hi]
  rw [hempty]
  rfl

@[simp] theorem size_refresh : (progress.refresh net).marks.size = progress.marks.size := by
  simp [refresh]

/-- Something asks a node for a flag: its own binding, a node that must be read for the flag, or a
released conditional whose branch the flag stands for. -/
def Asks (net : Net) (progress : Progress) (i flag : Nat) : Prop :=
  ((net.node i).isBinding = true ∧ flag ∈ (net.node i).invalid) ∨
    ∃ m, ∃ d ∈ (net.node m).dependencies, d.target = i ∧
      ((d.guard = none ∧ flag ∈ (progress.mark m).shouldRead) ∨
        ∃ g, d.guard = some g ∧ (progress.mark m).released = true ∧
          (progress.mark m).isRead = false ∧
          (net.node m).requirementFlag? g.branch = some flag)

/-- The flags to read fit the rest of the state. -/
structure UpToDate (net : Net) (progress : Progress) : Prop where
  size_eq : progress.marks.size = net.size
  mem_shouldRead : ∀ i flag, flag ∈ (progress.mark i).shouldRead ↔
    (net.node i).isDynamic = true ∧ (progress.mark i).isRead = false ∧
      flag ∈ (net.node i).conditionalRead ∧ flag ∉ (progress.mark i).readSoFar ∧
      progress.Asks net i flag

theorem mem_askedThrough {asked : Nat → FlagSet} {edge : Dependant} :
    flag ∈ progress.askedThrough net asked edge ↔
      ∃ d, (net.node edge.node).dependencies[edge.edge]? = some d ∧
        ((d.guard = none ∧ flag ∈ asked edge.node) ∨
          ∃ g, d.guard = some g ∧ (progress.mark edge.node).released = true ∧
            (progress.mark edge.node).isRead = false ∧
            (net.node edge.node).requirementFlag? g.branch = some flag) := by
  simp only [askedThrough]
  cases h : (net.node edge.node).dependencies[edge.edge]? with
  | none => simp
  | some d =>
    cases hg : d.guard with
    | none => simp [hg]
    | some g =>
      cases hr : (progress.mark edge.node).released <;>
        cases hi : (progress.mark edge.node).isRead <;> simp [hg, Net.mem_requirementSet]

theorem mem_askedFrom {asked : Nat → FlagSet} :
    flag ∈ progress.askedFrom net asked i ↔
      (net.node i).isDynamic = true ∧ (progress.mark i).isRead = false ∧
        flag ∈ (net.node i).conditionalRead ∧ flag ∉ (progress.mark i).readSoFar ∧
        (((net.node i).isBinding = true ∧ flag ∈ (net.node i).invalid) ∨
          ∃ edge ∈ (net.node i).dependants, flag ∈ progress.askedThrough net asked edge) := by
  simp only [askedFrom]
  by_cases h : ((net.node i).isDynamic && !(progress.mark i).isRead) = true
  · obtain ⟨hd, hr⟩ : (net.node i).isDynamic = true ∧ (progress.mark i).isRead = false := by
      simpa using h
    rw [if_pos h, FlagSet.mem_diff, FlagSet.mem_inter,
      FlagSet.mem_foldl_union (progress.askedThrough net asked)]
    cases hb : (net.node i).isBinding
    · simp [hd, hr]
      tauto
    · simp [hd, hr]
      tauto
  · rw [if_neg h]
    refine iff_of_false (FlagSet.not_mem_empty flag) ?_
    rintro ⟨hd, hr, -⟩
    exact h (by simp [hd, hr])

/-- The table of a refresh satisfies its equation. -/
theorem mem_askedTable (hw : net.WellFormed) (hi : i < net.size) :
    flag ∈ (progress.askedTable net).getD i .empty ↔
      flag ∈ progress.askedFrom net (fun j => (progress.askedTable net).getD j .empty) i := by
  have hlocal : ∀ f g i, (∀ j, i ∈ net.targets j → f j = g j) →
      progress.askedFrom net f i = progress.askedFrom net g i := by
    intro f g i h
    apply FlagSet.ext_mem
    intro flag
    rw [mem_askedFrom, mem_askedFrom]
    refine and_congr_right fun _ => and_congr_right fun _ => and_congr_right fun _ =>
      and_congr_right fun _ => or_congr_right (exists_congr fun edge => and_congr_right ?_)
    intro hedge
    obtain ⟨d, hget, htarget⟩ := (hw.mem_dependants i edge).mp hedge
    have hsame : f edge.node = g edge.node :=
      h edge.node (List.mem_map.mpr ⟨d, List.mem_of_getElem? hget, htarget⟩)
    rw [mem_askedThrough, mem_askedThrough, hsame]
  rw [askedTable, ← getD_sweep FlagSet.empty net.size
    (Net.follows_reverse_targets hw.nodup_order hw.mem_order hw.targets_first)
    (List.nodup_reverse.mpr hw.nodup_order)
    (fun i hi => (hw.mem_order i).mp (List.mem_reverse.mp hi)) hlocal
    (List.mem_reverse.mpr ((hw.mem_order i).mpr hi))]

theorem upToDate_refresh (hw : net.WellFormed) (hs : progress.marks.size = net.size) :
    (progress.refresh net).UpToDate net := by
  refine ⟨size_refresh.trans hs, fun i flag => ?_⟩
  unfold Asks
  simp only [mark_refresh hs]
  by_cases hi : i < net.size
  · rw [mem_askedTable hw hi, mem_askedFrom]
    simp only [mem_askedThrough]
    refine and_congr_right fun _ => and_congr_right fun _ => and_congr_right fun _ =>
      and_congr_right fun _ => or_congr_right ?_
    exact Net.exists_dependant (hw.mem_dependants i) (P := fun m d =>
      (d.guard = none ∧ flag ∈ (progress.askedTable net).getD m .empty) ∨
        ∃ g, d.guard = some g ∧ (progress.mark m).released = true ∧
          (progress.mark m).isRead = false ∧
          (net.node m).requirementFlag? g.branch = some flag)
  · refine iff_of_false ?_ fun h => hi (Net.lt_size_of_dynamic h.1)
    have : net.size ≤ i := by omega
    simp [askedTable, this]

/-- Some pass has read the node. -/
def WasRead (progress : Progress) (i : Nat) : Prop :=
  ∃ f, f ∈ (progress.mark i).readSoFar

/-- Nothing was read at the start. -/
@[simp] theorem mark_blank (i : Nat) : (blank net).mark i = default := by
  by_cases hi : i < net.size <;> simp [blank, mark, hi]

theorem mark_start (net : Net) (i : Nat) :
    (start net).mark i =
      { (default : ReadMark) with shouldRead := ((blank net).askedTable net).getD i .empty } := by
  rw [start, mark_refresh (by simp [blank]), mark_blank]

/-! ## Flags of neighbours -/

namespace UpToDate

variable (hu : progress.UpToDate net) {d : Dependency}
include hu

theorem dynamic (hf : flag ∈ (progress.mark i).shouldRead) : (net.node i).isDynamic = true :=
  ((hu.mem_shouldRead i flag).mp hf).1

theorem not_isRead (hf : flag ∈ (progress.mark i).shouldRead) : (progress.mark i).isRead = false :=
  ((hu.mem_shouldRead i flag).mp hf).2.1

theorem mem_conditionalRead (hf : flag ∈ (progress.mark i).shouldRead) :
    flag ∈ (net.node i).conditionalRead :=
  ((hu.mem_shouldRead i flag).mp hf).2.2.1

theorem not_mem_readSoFar (hf : flag ∈ (progress.mark i).shouldRead) :
    flag ∉ (progress.mark i).readSoFar :=
  ((hu.mem_shouldRead i flag).mp hf).2.2.2.1

/-- A target that may still be needed is read, or must be read, for what a node must be read for. -/
theorem flag_of_plain (hw : net.WellFormed) (hd : d ∈ (net.node i).dependencies)
    (hg : d.guard = none) (ht : (progress.mark d.target).isRead = false)
    (hf : flag ∈ (progress.mark i).shouldRead) :
    flag ∈ (progress.mark d.target).shouldRead ∨ flag ∈ (progress.mark d.target).readSoFar := by
  by_cases hread : flag ∈ (progress.mark d.target).readSoFar
  · exact .inr hread
  · refine .inl ((hu.mem_shouldRead d.target flag).mpr
      ⟨hw.dynamic_target i d hd, ht, ?_, hread, ?_⟩)
    · exact hw.conditionalRead_of_plain hd hg (hu.mem_conditionalRead hf)
    · exact .inr ⟨i, d, hd, rfl, .inl ⟨hg, hf⟩⟩

/-- A target behind a released guard is read, or must be read, for the requirement of its branch. -/
theorem flag_of_guard (hw : net.WellFormed) (hd : d ∈ (net.node i).dependencies) {g : Guard}
    (hg : d.guard = some g) (hr : (progress.mark i).released = true)
    (hi : (progress.mark i).isRead = false) (ht : (progress.mark d.target).isRead = false)
    (hf : (net.node i).requirementFlag? g.branch = some flag) :
    flag ∈ (progress.mark d.target).shouldRead ∨ flag ∈ (progress.mark d.target).readSoFar := by
  by_cases hread : flag ∈ (progress.mark d.target).readSoFar
  · exact .inr hread
  · refine .inl ((hu.mem_shouldRead d.target flag).mpr
      ⟨hw.dynamic_target i d hd, ht, ?_, hread, ?_⟩)
    · exact hw.conditionalRead_of_guard hd hg hf
    · exact .inr ⟨i, d, hd, rfl, .inr ⟨g, hg, hr, hi, hf⟩⟩

/-- A requirement is asked for only by its own conditional, after its release. -/
theorem released_of_requirement (hw : net.WellFormed)
    (hf : flag ∈ (progress.mark i).shouldRead) {c : Nat} {b : Bool}
    (hc : net.flags.requirement? flag = some (c, b)) :
    (progress.mark c).released = true ∧ (progress.mark c).isRead = false := by
  -- the flag came down plain edges from a target behind a guard
  induction i using hw.induction_dependants with
  | step i ih =>
    obtain ⟨-, -, -, -, hask⟩ := (hu.mem_shouldRead i flag).mp hf
    rcases hask with ⟨-, hinv⟩ | ⟨m, d, hd, htarget, ⟨-, hm⟩ | ⟨g, -, hr, hm, hflag⟩⟩
    · rw [hw.requirement?_of_mem_invalid hinv] at hc
      exact absurd hc (by simp)
    · exact ih m d hd htarget hm
    · rw [(hw.requirement_iff flag m g.branch).mpr hflag] at hc
      obtain ⟨rfl, -⟩ := Prod.mk.inj (Option.some.inj hc)
      exact ⟨hr, hm⟩

end UpToDate

end Progress
end BindingPlan
