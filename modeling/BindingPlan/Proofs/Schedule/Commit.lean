import BindingPlan.Proofs.Schedule.Settling

/-!
# The state after a pass

What a committed pass changes, said once for all nodes: the flags that they were read for grow by
the reads of the batch, nodes settle until no other node can, the guards with a known predicate are
released, and the flags to read are brought up to date.

Main results:

* `Progress.commits_commitNodes`: a commit is described by `Progress.Commits`.
* `Progress.readNodes_commitNodes`: it leaves the nodes read for good that settling leaves so.
-/

namespace BindingPlan
namespace Progress

variable {net : Net} {progress next : Progress} {nodes : List Nat} {i flag : Nat}

/-! ## Reading the batch -/

@[simp] theorem size_readBatch : (progress.readBatch nodes).marks.size = progress.marks.size := by
  simp [readBatch]

theorem mark_readBatch (i : Nat) :
    (progress.readBatch nodes).mark i =
      if i ∈ nodes then
        { progress.mark i with
          readSoFar := (progress.mark i).readSoFar.union (progress.mark i).shouldRead }
      else progress.mark i := by
  rw [readBatch, mark_map]
  · simp
  · intro _
    split_ifs <;> rfl

theorem mem_readSoFar_readBatch :
    flag ∈ ((progress.readBatch nodes).mark i).readSoFar ↔
      flag ∈ (progress.mark i).readSoFar ∨ (i ∈ nodes ∧ flag ∈ (progress.mark i).shouldRead) := by
  rw [mark_readBatch]
  split_ifs with h <;> simp [h]

theorem shouldRead_readBatch (i : Nat) :
    ((progress.readBatch nodes).mark i).shouldRead = (progress.mark i).shouldRead := by
  rw [mark_readBatch]
  split_ifs <;> rfl

theorem isRead_readBatch (i : Nat) :
    ((progress.readBatch nodes).mark i).isRead = (progress.mark i).isRead := by
  rw [mark_readBatch]
  split_ifs <;> rfl

theorem released_readBatch (i : Nat) :
    ((progress.readBatch nodes).mark i).released = (progress.mark i).released := by
  rw [mark_readBatch]
  split_ifs <;> rfl

/-! ## Releasing guards -/

@[simp] theorem size_releaseGuards :
    (progress.releaseGuards net).marks.size = progress.marks.size := by
  simp [releaseGuards]

/-- The value of the predicate is known to the conditional. -/
def Known (net : Net) (progress : Progress) (conditional predicate : Nat) : Prop :=
  (progress.mark predicate).isRead = true ∨
    (∀ f ∈ (net.node predicate).invalid, f ∈ (progress.mark predicate).readSoFar) ∨
    ((∃ f, f ∈ (progress.mark conditional).shouldRead) ∧
      ∀ f ∈ (progress.mark conditional).shouldRead, f ∈ (progress.mark predicate).readSoFar)

theorem predicateKnown_eq_true {conditional predicate : Nat} :
    progress.predicateKnown net conditional predicate = true ↔
      progress.Known net conditional predicate := by
  simp only [predicateKnown, Known, Bool.or_eq_true, Bool.and_eq_true, Bool.not_eq_true',
    FlagSet.isSubset_eq_true, FlagSet.isEmpty_eq_false, or_assoc]

/-- The guards of the node have a known predicate. -/
def Releases (net : Net) (progress : Progress) (i : Nat) : Prop :=
  ∃ d ∈ (net.node i).dependencies, ∃ g, d.guard = some g ∧ progress.Known net i g.predicate

theorem any_predicateKnown :
    (((net.node i).dependencies.filterMap Dependency.guard).any fun guard =>
        progress.predicateKnown net i guard.predicate) = true ↔ progress.Releases net i := by
  simp only [List.any_eq_true, List.mem_filterMap, predicateKnown_eq_true, Releases]
  constructor
  · rintro ⟨g, ⟨d, hd, hg⟩, hk⟩
    exact ⟨d, hd, g, hg, hk⟩
  · rintro ⟨d, hd, g, hg, hk⟩
    exact ⟨g, ⟨d, hd, hg⟩, hk⟩

/-- Releasing changes nothing else. -/
theorem mark_releaseGuards (hs : progress.marks.size = net.size) (i : Nat) :
    (progress.releaseGuards net).mark i =
        { progress.mark i with released := ((progress.releaseGuards net).mark i).released } ∧
      (((progress.releaseGuards net).mark i).released = true ↔
        (progress.mark i).released = true ∨ progress.Releases net i) := by
  have hmark : (progress.releaseGuards net).mark i =
      { progress.mark i with
        released := (progress.mark i).released ||
          ((net.node i).dependencies.filterMap Dependency.guard).any fun guard =>
            progress.predicateKnown net i guard.predicate } := by
    refine mark_map i fun hi => ?_
    rw [Net.node_of_size_le (by omega)]
    rfl
  refine ⟨by rw [hmark], ?_⟩
  rw [hmark, Bool.or_eq_true, any_predicateKnown]

/-! ## Committing -/

/-- What a committed pass over the nodes changes. The known predicates are judged by what was read
in the pass, and by what the conditional was asked for before it. -/
structure Commits (net : Net) (progress : Progress) (nodes : List Nat) (next : Progress) :
    Prop where
  upToDate : next.UpToDate net
  mem_readSoFar : ∀ i flag, flag ∈ (next.mark i).readSoFar ↔
    flag ∈ (progress.mark i).readSoFar ∨ (i ∈ nodes ∧ flag ∈ (progress.mark i).shouldRead)
  isRead_iff : ∀ i, (next.mark i).isRead = true ↔ (progress.mark i).isRead = true ∨
    ((net.node i).isDynamic = true ∧
      ∀ f ∈ (net.node i).conditionalRead, f ∉ (next.mark i).readSoFar →
        next.SettledFor net f (next.mark i).readSoFar)
  released_iff : ∀ i, (next.mark i).released = true ↔ (progress.mark i).released = true ∨
    ∃ d ∈ (net.node i).dependencies, ∃ g, d.guard = some g ∧
      ((next.mark g.predicate).isRead = true ∨
        (∀ f ∈ (net.node g.predicate).invalid, f ∈ (next.mark g.predicate).readSoFar) ∨
        ((∃ f, f ∈ (progress.mark i).shouldRead) ∧
          ∀ f ∈ (progress.mark i).shouldRead, f ∈ (next.mark g.predicate).readSoFar))

namespace Commits

variable (hc : Commits net progress nodes next)
include hc

theorem readSoFar_mono (hf : flag ∈ (progress.mark i).readSoFar) :
    flag ∈ (next.mark i).readSoFar :=
  (hc.mem_readSoFar i flag).mpr (.inl hf)

theorem wasRead_mono (hi : progress.WasRead i) : next.WasRead i := by
  obtain ⟨f, hf⟩ := hi
  exact ⟨f, hc.readSoFar_mono hf⟩

theorem readSoFar_of_mem (hi : i ∈ nodes) (hf : flag ∈ (progress.mark i).shouldRead) :
    flag ∈ (next.mark i).readSoFar :=
  (hc.mem_readSoFar i flag).mpr (.inr ⟨hi, hf⟩)

/-- A node that was read was read before, or is one of the nodes. -/
theorem wasRead_or_mem (hi : next.WasRead i) : progress.WasRead i ∨ i ∈ nodes := by
  obtain ⟨f, hf⟩ := hi
  rcases (hc.mem_readSoFar i f).mp hf with hold | ⟨hmem, -⟩
  · exact .inl ⟨f, hold⟩
  · exact .inr hmem

theorem isRead_of_next (hi : (next.mark i).isRead = false) : (progress.mark i).isRead = false := by
  by_contra hold
  have := (hc.isRead_iff i).mpr (.inl (by simpa using hold))
  rw [hi] at this
  exact absurd this (by decide)

/-- A conditional whose predicate settles without ever having been read settles with it. -/
theorem isRead_of_predicate (hw : net.WellFormed) {d : Dependency} {g : Guard}
    (hd : d ∈ (net.node i).dependencies) (hg : d.guard = some g)
    (hp : (progress.mark g.predicate).isRead = false)
    (hread : (next.mark g.predicate).isRead = true) (hnever : ¬next.WasRead g.predicate) :
    (next.mark i).isRead = true := by
  obtain ⟨-, p, hpd, htarget, hplain⟩ := hw.guard_predicate i d hd g hg
  rw [← htarget] at hp hread hnever
  obtain ⟨-, hleft⟩ := ((hc.isRead_iff p.target).mp hread).resolve_left (by simp [hp])
  refine (hc.isRead_iff i).mpr (.inr ⟨hw.dynamic_of_dependency i d hd, fun f hf _ => ?_⟩)
  -- the predicate may be needed for the flag, and was read for nothing
  have hmem := hw.conditionalRead_of_plain hpd hplain hf
  obtain ⟨c, b, q, hreq, hq, hqread, hsub⟩ := hleft f hmem fun hf => hnever ⟨f, hf⟩
  exact ⟨c, b, q, hreq, hq, hqread, fun f' hf' => absurd ⟨f', hsub f' hf'⟩ hnever⟩

end Commits

/-- Behind settling, a commit changes no more than the guards and the flags to read. -/
theorem mark_commitNodes (hs : progress.marks.size = net.size) (i : Nat) :
    (progress.commitNodes net nodes).mark i =
      { ((progress.readBatch nodes).settle net).mark i with
        released := ((progress.commitNodes net nodes).mark i).released
        shouldRead := ((progress.commitNodes net nodes).mark i).shouldRead } := by
  have hsb : (progress.readBatch nodes).marks.size = net.size := size_readBatch.trans hs
  have hss := (settles_settle hsb).1.size_eq.trans hsb
  rw [commitNodes, mark_refresh (size_releaseGuards.trans hss), (mark_releaseGuards hss i).1]

/-- What a commit does behind settling leaves the nodes that are read for good. -/
theorem readNodes_commitNodes (hs : progress.marks.size = net.size) :
    (progress.commitNodes net nodes).readNodes =
      ((progress.readBatch nodes).settle net).readNodes := by
  ext i
  unfold readNodes
  rw [Set.mem_ofPred, mark_commitNodes hs i]
  rfl

theorem commits_commitNodes (hw : net.WellFormed) (hs : progress.marks.size = net.size) :
    Commits net progress nodes (progress.commitNodes net nodes) := by
  set batch := progress.readBatch nodes with hbatch
  have hsb : batch.marks.size = net.size := by rw [hbatch, size_readBatch, hs]
  set settled := batch.settle net with hsettled
  have hset : Settles net batch settled := (settles_settle hsb).1
  have hss : settled.marks.size = net.size := hset.size_eq.trans hsb
  have hsr : (settled.releaseGuards net).marks.size = net.size := by rw [size_releaseGuards, hss]
  set next := progress.commitNodes net nodes with hnext
  have hread : ∀ i, (next.mark i).isRead = (settled.mark i).isRead := fun i => by
    rw [hnext, mark_commitNodes hs i]
  have hsofar : ∀ i, (next.mark i).readSoFar = (batch.mark i).readSoFar := fun i => by
    rw [hnext, mark_commitNodes hs i, ← hbatch, ← hsettled, hset.readSoFar_eq]
  have hsettledFor : ∀ f own, next.SettledFor net f own ↔ settled.SettledFor net f own := by
    intro f own
    simp only [SettledFor, hread]
  refine ⟨upToDate_refresh hw hsr, fun i flag => ?_, fun i => ?_, fun i => ?_⟩
  · rw [hsofar i]
    exact mem_readSoFar_readBatch
  · simp only [hread, hsofar, hsettledFor]
    rw [hsettled, isRead_settle hsb i, hbatch, isRead_readBatch]
  · have hr : (next.mark i).released = ((settled.releaseGuards net).mark i).released := by
      rw [hnext, commitNodes, mark_refresh hsr]
    have hasked : (settled.mark i).shouldRead = (progress.mark i).shouldRead := by
      rw [hset.mark_eq i, hbatch, shouldRead_readBatch]
    have hold : (settled.mark i).released = (progress.mark i).released := by
      rw [hset.mark_eq i, hbatch, released_readBatch]
    rw [hr, (mark_releaseGuards hss i).2, hold]
    simp only [Releases, Known, hread, hsofar, hasked, hset.readSoFar_eq]

end Progress
end BindingPlan
