import BindingPlan.Proofs.Net.Renaming
import BindingPlan.Proofs.Schedule.Convergence

/-!
# Renaming a schedule

Reads over two nets that are the same up to names advance in step. Whatever is computed from the
state of the reads is the same up to names, so both make the same passes: the order in which nodes
are taken only shows in the order in which the reads of a layer are listed.

Main results:

* `Progress.Renames.mem_batch_iff`: the batches are the same up to names.
* `Progress.Renames.commit`: so are the states after a pass.
* `Progress.Renames.runPasses`: so are the passes.
-/

namespace BindingPlan

variable {onNodes onFlags : Nat ≃ Nat}

/-- What is said of the element of a list at a position, said of the one that goes with it. -/
theorem exists_getElem?_iff {α β : Type} {R : α → β → Prop} {list : List α} {list' : List β}
    (hall : List.Forall₂ R list list') {P : α → Prop} {P' : β → Prop}
    (h : ∀ a b, R a b → (P' b ↔ P a)) (k : Nat) :
    (∃ b, list'[k]? = some b ∧ P' b) ↔ ∃ a, list[k]? = some a ∧ P a := by
  induction hall generalizing k with
  | nil => simp
  | cons hab _ ih =>
    cases k with
    | zero => simpa using h _ _ hab
    | succ k => simpa using ih k

/-! ## Lists of nodes -/

/-- The second list holds the images of the nodes in the first one. -/
def RenamesNodes (onNodes : Nat ≃ Nat) (nodes other : List Nat) : Prop :=
  ∀ i, onNodes i ∈ other ↔ i ∈ nodes

namespace RenamesNodes

variable {nodes other chosen chosen' : List Nat}

theorem nil : RenamesNodes onNodes [] [] :=
  fun _ => iff_of_false List.not_mem_nil List.not_mem_nil

theorem append (h : RenamesNodes onNodes chosen chosen') (h' : RenamesNodes onNodes nodes other) :
    RenamesNodes onNodes (chosen ++ nodes) (chosen' ++ other) := by
  intro i
  rw [List.mem_append, List.mem_append, h i, h' i]

theorem filter {p p' : Nat → Bool} (h : RenamesNodes onNodes nodes other)
    (hp : ∀ i, p' (onNodes i) = p i) :
    RenamesNodes onNodes (nodes.filter p) (other.filter p') := by
  intro i
  rw [List.mem_filter, List.mem_filter, h i, hp i]

theorem eq_nil_iff (h : RenamesNodes onNodes nodes other) : other = [] ↔ nodes = [] := by
  rw [List.eq_nil_iff_forall_not_mem, List.eq_nil_iff_forall_not_mem]
  exact onNodes.surjective.forall.trans (forall_congr' fun i => not_congr (h i))

theorem length_eq (h : RenamesNodes onNodes nodes other) (hn : nodes.Nodup) (hn' : other.Nodup) :
    other.length = nodes.length := by
  have hperm : other.Perm (nodes.map onNodes) := by
    refine (List.perm_ext_iff_of_nodup hn' (hn.map onNodes.injective)).mpr ?_
    refine onNodes.surjective.forall.mpr fun i => (h i).trans ?_
    exact (List.mem_map_of_injective onNodes.injective).symm
  exact hperm.length_eq.trans (List.length_map _)

end RenamesNodes

theorem Net.Renames.renamesNodes_ids {net other : Net} (h : Renames onNodes onFlags net other) :
    RenamesNodes onNodes net.ids other.ids := by
  intro i
  unfold ids
  rw [List.mem_range, List.mem_range, h.lt_size_iff]

/-! ## States -/

/-- The reads of a node have come as far as those of another one. -/
structure ReadMark.Renames (onFlags : Nat ≃ Nat) (mark other : ReadMark) : Prop where
  shouldRead : FlagSet.Renames onFlags mark.shouldRead other.shouldRead
  readSoFar : FlagSet.Renames onFlags mark.readSoFar other.readSoFar
  isRead : other.isRead = mark.isRead
  released : other.released = mark.released

/-- The second pass lists the images of the reads in the first one. -/
def Pass.Renames (onNodes onFlags : Nat ≃ Nat) (pass other : Pass) : Prop :=
  ∀ i flags flags' layer, FlagSet.Renames onFlags flags flags' →
    (⟨onNodes i, flags', layer⟩ ∈ other.reads ↔ ⟨i, flags, layer⟩ ∈ pass.reads)

namespace Progress

section

variable {net : Net} {progress : Progress} {chosen remaining layer : List Nat}
  {layers : List (List Nat)}

theorem layersFrom_eq_nil :
    progress.layersFrom net chosen remaining = .ok [] ↔ remaining = [] := by
  rw [layersFrom]
  dsimp only
  split_ifs with hnil hready
  · exact iff_of_true rfl hnil
  · simp [hnil]
  · cases progress.layersFrom net (chosen ++ progress.readyNow net chosen remaining)
      (progress.notReadyNow net chosen remaining) <;> simp [Except.map, hnil]

/-- The first layer holds what can be read next, and the others the rest. -/
theorem layersFrom_eq_cons :
    progress.layersFrom net chosen remaining = .ok (layer :: layers) ↔
      progress.readyNow net chosen remaining ≠ [] ∧
        progress.readyNow net chosen remaining = layer ∧
        progress.layersFrom net (chosen ++ progress.readyNow net chosen remaining)
          (progress.notReadyNow net chosen remaining) = .ok layers := by
  rw [layersFrom]
  dsimp only
  split_ifs with hnil hready
  · simp [hnil, readyNow]
  · simp [hready]
  · cases progress.layersFrom net (chosen ++ progress.readyNow net chosen remaining)
      (progress.notReadyNow net chosen remaining) <;> simp [Except.map, hready]

end

/-- The reads of each node have come as far as those of its image. -/
def Renames (onNodes onFlags : Nat ≃ Nat) (progress other : Progress) : Prop :=
  ∀ i, (progress.mark i).Renames onFlags (other.mark (onNodes i))

namespace Renames

variable {net net' : Net} {p p' : Progress} {i : Nat} {d : Dependency}
  (h : Net.Renames onNodes onFlags net net') (hp : Renames onNodes onFlags p p')

include h hp

theorem covers_iff :
    p'.Covers net' (onNodes i) (d.rename onNodes) ↔ p.Covers net i d := by
  have htarget := hp d.target
  unfold Covers
  refine and_congr (onFlags.surjective.forall.trans (forall_congr' fun f =>
    not_congr (htarget.shouldRead f))) ?_
  cases hg : d.guard with
  | none =>
    rw [Dependency.guard_rename_eq_none.mpr hg]
    exact (hp i).shouldRead.subset_iff htarget.readSoFar
  | some g =>
    have hg' : (d.rename onNodes).guard = some (g.rename onNodes) := by
      simp [Dependency.rename, hg]
    rw [hg']
    refine onFlags.surjective.exists.trans (exists_congr fun f => and_congr ?_ ?_)
    · exact h.requirementFlag?_iff i g.branch f
    · exact htarget.readSoFar f

theorem readNow_eq {chosen chosen' : List Nat} (hchosen : RenamesNodes onNodes chosen chosen')
    (i : Nat) : p'.readNow net' chosen' (onNodes i) = p.readNow net chosen i := by
  rw [Bool.eq_iff_iff, readNow_eq_true, readNow_eq_true, (hp i).shouldRead.exists_mem_iff,
    h.forall_dependency, (hp i).released]
  refine and_congr_right fun _ => forall_congr' fun d => forall_congr' fun _ => ?_
  rw [covers_iff h hp, Dependency.isSome_guard_rename]
  show (p'.mark (onNodes d.target)).isRead = true ∨ onNodes d.target ∈ chosen' ∨ _ ↔ _
  rw [(hp d.target).isRead, hchosen]

/-- Nodes that have layers have the same ones under other names. -/
theorem layersFrom {chosen chosen' remaining remaining' : List Nat} {layers : List (List Nat)}
    (hchosen : RenamesNodes onNodes chosen chosen')
    (hremaining : RenamesNodes onNodes remaining remaining')
    (hlayers : p.layersFrom net chosen remaining = .ok layers) :
    ∃ layers', p'.layersFrom net' chosen' remaining' = .ok layers' ∧
      List.Forall₂ (RenamesNodes onNodes) layers layers' := by
  induction layers generalizing chosen chosen' remaining remaining' with
  | nil =>
    have hnil := layersFrom_eq_nil.mp hlayers
    exact ⟨[], layersFrom_eq_nil.mpr (hremaining.eq_nil_iff.mpr hnil), .nil⟩
  | cons layer layers ih =>
    have hnow := readNow_eq h hp hchosen
    have hready : RenamesNodes onNodes (p.readyNow net chosen remaining)
        (p'.readyNow net' chosen' remaining') := hremaining.filter hnow
    have hrest : RenamesNodes onNodes (p.notReadyNow net chosen remaining)
        (p'.notReadyNow net' chosen' remaining') := hremaining.filter fun i => by rw [hnow i]
    obtain ⟨hne, rfl, hothers⟩ := layersFrom_eq_cons.mp hlayers
    obtain ⟨others, hothers, hall⟩ := ih (hchosen.append hready) hrest hothers
    exact ⟨_, layersFrom_eq_cons.mpr ⟨fun hnil => hne (hready.eq_nil_iff.mp hnil), rfl, hothers⟩,
      .cons hready hall⟩

/-! ## Batches -/

variable (hw : net.WellFormed) (hw' : net'.WellFormed)
include hw hw'

/-- The image of a node is in the batch if the node is. -/
theorem mem_batch_iff (hu : p.UpToDate net) (hu' : p'.UpToDate net') :
    RenamesNodes onNodes (p.batch net) (p'.batch net') := by
  intro i
  induction i using hw.induction_targets with
  | step i ih =>
    rw [mem_batch hw hu, mem_batch hw' hu', (hp i).shouldRead.exists_mem_iff, h.forall_dependency,
      (hp i).released]
    refine and_congr_right fun _ => forall_congr' fun d => forall_congr' fun hd => ?_
    rw [covers_iff h hp, Dependency.isSome_guard_rename]
    show _ ∧ ((p'.mark (onNodes d.target)).isRead = true ∨
      onNodes d.target ∈ p'.batch net' ∨ _) ↔ _
    rw [(hp d.target).isRead, ih d hd]

/-! ## Settling -/

theorem settledFor_iff {own own' : FlagSet} (hown : FlagSet.Renames onFlags own own') (f : Nat) :
    p'.SettledFor net' (onFlags f) own' ↔ p.SettledFor net f own := by
  unfold SettledFor
  rw [onNodes.surjective.exists]
  refine exists_congr fun c => exists_congr fun b => onNodes.surjective.exists.trans
    (exists_congr fun q => ?_)
  rw [h.requirement?_iff hw hw', h.predicate_iff, (hp q).isRead,
    (h.renames_conditionalRead hw hw' c).subset_iff hown]

theorem settles_eq (i : Nat) : p'.settles net' (onNodes i) = p.settles net i := by
  rw [Bool.eq_iff_iff, settles_eq_true, settles_eq_true, h.isDynamic, (hp i).isRead]
  refine and_congr_right fun _ => and_congr_right fun _ =>
    onFlags.surjective.forall.trans (forall_congr' fun f => imp_congr ?_ (imp_congr ?_ ?_))
  · exact h.renames_conditionalRead hw hw' i f
  · exact not_congr ((hp i).readSoFar f)
  · exact settledFor_iff h hp hw hw' (hp i).readSoFar f

theorem settling : RenamesNodes onNodes (p.settling net) (p'.settling net') :=
  h.renamesNodes_ids.filter (settles_eq h hp hw hw')

omit h hp in
/-- Settling goes on in rounds, and what one round settles is the same up to names. -/
theorem settleRounds (h : Net.Renames onNodes onFlags net net') (bound : Nat)
    (hp : Renames onNodes onFlags p p') (hs : p.marks.size = net.size)
    (hs' : p'.marks.size = net'.size) :
    Renames onNodes onFlags (p.settleRounds net bound) (p'.settleRounds net' bound) := by
  induction bound generalizing p p' with
  | zero => exact hp
  | succ bound ih =>
    have hsettling := settling h hp hw hw'
    rw [settleRounds_succ, settleRounds_succ]
    by_cases hnil : p.settling net = []
    · rw [if_pos hnil, if_pos (hsettling.eq_nil_iff.mpr hnil)]
      exact hp
    · rw [if_neg hnil, if_neg fun hnil' => hnil (hsettling.eq_nil_iff.mp hnil')]
      have hround := settles_markRead hs (List.Subset.refl (p.settling net))
      have hround' := settles_markRead hs' (List.Subset.refl (p'.settling net'))
      refine ih (fun i => ?_) (hround.size_eq.trans hs) (hround'.size_eq.trans hs')
      have hlt : ∀ i ∈ p.settling net, i < p.marks.size := fun i hi =>
        hs ▸ List.mem_range.mp (List.mem_filter.mp hi).1
      have hlt' : ∀ i ∈ p'.settling net', i < p'.marks.size := fun i hi =>
        hs' ▸ List.mem_range.mp (List.mem_filter.mp hi).1
      rw [mark_markRead hlt, mark_markRead hlt']
      refine ⟨(hp i).shouldRead, (hp i).readSoFar, ?_, (hp i).released⟩
      show ((p'.mark (onNodes i)).isRead || decide _) = _
      rw [(hp i).isRead, decide_eq_decide.mpr (hsettling i)]

theorem settle (hs : p.marks.size = net.size) (hs' : p'.marks.size = net'.size) :
    Renames onNodes onFlags (p.settle net) (p'.settle net') := by
  have hunread : RenamesNodes onNodes (p.unread net) (p'.unread net') :=
    h.renamesNodes_ids.filter fun i => by rw [h.isDynamic, (hp i).isRead]
  have hlength : (p'.unread net').length = (p.unread net).length :=
    hunread.length_eq (List.nodup_range.filter _) (List.nodup_range.filter _)
  have hrounds := settleRounds hw hw' h ((p.unread net).length + 1) hp hs hs'
  show Renames onNodes onFlags (p.settleRounds net ((p.unread net).length + 1))
    (p'.settleRounds net' ((p'.unread net').length + 1))
  rw [hlength]
  exact hrounds

/-! ## Committing -/

theorem releases_iff (i : Nat) : p'.Releases net' (onNodes i) ↔ p.Releases net i := by
  unfold Releases
  rw [h.exists_dependency]
  refine exists_congr fun d => and_congr_right fun _ => ?_
  rw [Dependency.exists_guard_rename]
  refine exists_congr fun g => and_congr_right fun _ => or_congr ?_ (or_congr ?_ (and_congr ?_ ?_))
  · show (p'.mark (onNodes g.predicate)).isRead = true ↔ _
    rw [(hp g.predicate).isRead]
  · exact (h.renames_invalid hw hw' g.predicate).subset_iff (hp g.predicate).readSoFar
  · exact (hp i).shouldRead.exists_mem_iff
  · exact (hp i).shouldRead.subset_iff (hp g.predicate).readSoFar

theorem releaseGuards (hs : p.marks.size = net.size) (hs' : p'.marks.size = net'.size) :
    Renames onNodes onFlags (p.releaseGuards net) (p'.releaseGuards net') := by
  intro i
  obtain ⟨hmark, hreleased⟩ := mark_releaseGuards hs i
  obtain ⟨hmark', hreleased'⟩ := mark_releaseGuards hs' (onNodes i)
  have heq : ((p'.releaseGuards net').mark (onNodes i)).released =
      ((p.releaseGuards net).mark i).released := by
    rw [Bool.eq_iff_iff, hreleased, hreleased', (hp i).released, releases_iff h hp hw hw']
  rw [hmark, hmark']
  exact ⟨(hp i).shouldRead, (hp i).readSoFar, (hp i).isRead, heq⟩

/-- What must be read comes down from the bindings the same way. -/
theorem refresh (hs : p.marks.size = net.size) (hs' : p'.marks.size = net'.size) :
    Renames onNodes onFlags (p.refresh net) (p'.refresh net') := by
  have hu := upToDate_refresh hw hs
  have hu' := upToDate_refresh hw' hs'
  have hkept (i : Nat) : ((p'.refresh net').mark (onNodes i)).isRead =
        ((p.refresh net).mark i).isRead ∧
      ((p'.refresh net').mark (onNodes i)).released = ((p.refresh net).mark i).released ∧
      FlagSet.Renames onFlags ((p.refresh net).mark i).readSoFar
        ((p'.refresh net').mark (onNodes i)).readSoFar := by
    rw [mark_refresh hs, mark_refresh hs']
    exact ⟨(hp i).isRead, (hp i).released, (hp i).readSoFar⟩
  refine fun i => ⟨fun f => ?_, (hkept i).2.2, (hkept i).1, (hkept i).2.1⟩
  induction i using hw.induction_dependants with
  | step i ih =>
    rw [hu.mem_shouldRead, hu'.mem_shouldRead, h.isDynamic, (hkept i).1, (hkept i).2.2 f,
      h.renames_conditionalRead hw hw' i f]
    refine and_congr_right fun _ => and_congr_right fun _ => and_congr_right fun _ =>
      and_congr_right fun _ => ?_
    unfold Asks
    rw [h.isBinding, h.renames_invalid hw hw' i f, h.exists_dependant]
    refine or_congr_right (exists_congr fun m => exists_congr fun d => and_congr_right fun hd =>
      and_congr_right fun htarget => or_congr ?_ ?_)
    · rw [Dependency.guard_rename_eq_none, ih m d hd htarget]
    · rw [Dependency.exists_guard_rename, (hkept m).1, (hkept m).2.1]
      refine exists_congr fun g => and_congr_right fun _ => and_congr_right fun _ =>
        and_congr_right fun _ => h.requirementFlag?_iff m g.branch f

omit h hp hw hw' in
theorem readBatch {nodes nodes' : List Nat} (hp : Renames onNodes onFlags p p')
    (hnodes : RenamesNodes onNodes nodes nodes') :
    Renames onNodes onFlags (p.readBatch nodes) (p'.readBatch nodes') := by
  refine fun i => ⟨fun f => ?_, fun f => ?_, ?_, ?_⟩
  · rw [shouldRead_readBatch, shouldRead_readBatch, (hp i).shouldRead f]
  · rw [mem_readSoFar_readBatch, mem_readSoFar_readBatch, (hp i).shouldRead f,
      (hp i).readSoFar f, hnodes i]
  · rw [isRead_readBatch, isRead_readBatch, (hp i).isRead]
  · rw [released_readBatch, released_readBatch, (hp i).released]

/-- After a pass the reads have come equally far again. -/
theorem commit (hu : p.UpToDate net) (hu' : p'.UpToDate net') :
    Renames onNodes onFlags (p.commit net) (p'.commit net') := by
  have hread := readBatch hp (mem_batch_iff h hp hw hw' hu hu')
  have hs : (p.readBatch (p.batch net)).marks.size = net.size := size_readBatch.trans hu.size_eq
  have hs' : (p'.readBatch (p'.batch net')).marks.size = net'.size :=
    size_readBatch.trans hu'.size_eq
  have hsettled := settle h hread hw hw' hs hs'
  have hs := (settles_settle hs).1.size_eq.trans hs
  have hs' := (settles_settle hs').1.size_eq.trans hs'
  exact refresh h (releaseGuards h hsettled hw hw' hs hs') hw hw' (size_releaseGuards.trans hs)
    (size_releaseGuards.trans hs')

/-! ## Passes -/

omit h hp hw hw' in
theorem passOf {layers layers' : List (List Nat)} (hp : Renames onNodes onFlags p p')
    (hall : List.Forall₂ (RenamesNodes onNodes) layers layers') :
    Pass.Renames onNodes onFlags (p.passOf layers) (p'.passOf layers') := by
  intro i flags flags' layer hflags
  rw [mem_reads_passOf, mem_reads_passOf]
  have hsame : flags' = (p'.mark (onNodes i)).shouldRead ↔ flags = (p.mark i).shouldRead := by
    constructor
    · rintro rfl
      exact FlagSet.ext_mem fun f => (hflags f).symm.trans ((hp i).shouldRead f)
    · rintro rfl
      exact hflags.unique (hp i).shouldRead
  simp only [hsame, ← and_assoc, exists_and_right]
  exact and_congr_left' (exists_getElem?_iff hall (fun _ _ hlayer => hlayer i) layer)

/-- The passes of two states that have come equally far are the same up to names. -/
theorem runPasses {bound : Nat} {passes : List Pass} {last : Progress} (hu : p.UpToDate net)
    (hu' : p'.UpToDate net') (hrun : p.runPasses net bound = (last, .ok passes)) :
    ∃ last' passes', p'.runPasses net' bound = (last', .ok passes') ∧
      List.Forall₂ (Pass.Renames onNodes onFlags) passes passes' := by
  induction bound generalizing p p' passes with
  | zero =>
    cases hrun
    exact ⟨p', [], rfl, .nil⟩
  | succ bound ih =>
    have hbatch := mem_batch_iff h hp hw hw' hu hu'
    by_cases hb : p.batch net = []
    · have hb' := hbatch.eq_nil_iff.mpr hb
      rw [Progress.runPasses, hb] at hrun
      cases hrun
      exact ⟨p', [], by rw [Progress.runPasses, hb']; rfl, .nil⟩
    have hb' : p'.batch net' ≠ [] := fun hnil => hb (hbatch.eq_nil_iff.mp hnil)
    obtain ⟨layers, next, rest, hlayers, rfl, hcase⟩ := (runPasses_succ_eq_ok hb).mp hrun
    obtain ⟨layers', hlayers', hall⟩ := layersFrom h hp .nil hbatch hlayers
    have hnext := commit h hp hw hw' hu hu'
    have hunext := (commits_commit hw hu).upToDate
    have hunext' := (commits_commit hw' hu').upToDate
    have hmore : ((p'.commit net').batch net').isEmpty = ((p.commit net).batch net).isEmpty := by
      rw [Bool.eq_iff_iff, List.isEmpty_iff, List.isEmpty_iff]
      exact (mem_batch_iff h hnext hw hw' hunext hunext').eq_nil_iff
    rw [mark?_eq_ok hu] at hcase
    obtain ⟨hmark, rfl, rfl⟩ | ⟨hmark, hrest⟩ := hcase
    · obtain ⟨rfl, hempty⟩ := Prod.mk.inj (Except.ok.inj hmark)
      refine ⟨p'.commit net', _, (runPasses_succ_eq_ok hb').mpr ⟨layers', p'.commit net', [],
        hlayers', rfl, .inl ⟨?_, rfl, rfl⟩⟩, .cons (passOf hp hall) .nil⟩
      rw [mark?_eq_ok hu', hmore, hempty]
    · obtain ⟨rfl, hempty⟩ := Prod.mk.inj (Except.ok.inj hmark)
      obtain ⟨last', rest', hrest', hrenames⟩ := ih hnext hunext hunext' hrest
      refine ⟨last', _, (runPasses_succ_eq_ok hb').mpr ⟨layers', p'.commit net', rest',
        hlayers', rfl, .inr ⟨?_, hrest'⟩⟩, .cons (passOf hp hall) hrenames⟩
      rw [mark?_eq_ok hu', hmore, hempty]

omit hp in
/-- Nothing was read of nets that were just sealed. -/
theorem start : Renames onNodes onFlags (start net) (start net') := by
  refine refresh h (fun i => ?_) hw hw' (by simp [blank]) (by simp [blank])
  rw [mark_blank, mark_blank]
  exact ⟨FlagSet.renames_empty, FlagSet.renames_empty, rfl, rfl⟩

end Renames

/-- The loop makes the passes of a schedule under every bound that allows for them. -/
theorem runPasses_start_eq {net : Net} {last : Progress} {schedule : Schedule}
    (hw : net.WellFormed) (hrun : (start net).run net = (last, .ok schedule)) {bound : Nat}
    (hbound : schedule.passes.length ≤ bound) :
    (start net).runPasses net bound = (last, .ok schedule.passes) := by
  have hstart := invariant_start hw
  obtain ⟨passes, end', hrun', hruns⟩ := runs_run hw hstart
  cases hrun.symm.trans hrun'
  exact runPasses_eq (runPasses_of_run hrun) (hruns.invariant_last hw hstart).2 hbound

/-- The schedules of nets that are the same up to names have the same passes up to names. -/
theorem renames_run {net net' : Net} {last last' : Progress} {schedule schedule' : Schedule}
    (h : Net.Renames onNodes onFlags net net') (hw : net.WellFormed) (hw' : net'.WellFormed)
    (hrun : (start net).run net = (last, .ok schedule))
    (hrun' : (start net').run net' = (last', .ok schedule')) :
    List.Forall₂ (Pass.Renames onNodes onFlags) schedule.passes schedule'.passes := by
  have hpasses := runPasses_start_eq hw hrun (Nat.le_max_left _ schedule'.passes.length)
  have hpasses' := runPasses_start_eq hw' hrun' (Nat.le_max_right schedule.passes.length _)
  obtain ⟨_, passes, hsame, hall⟩ := Renames.runPasses h (Renames.start h hw hw') hw hw'
    (invariant_start hw).upToDate (invariant_start hw').upToDate hpasses
  cases hpasses'.symm.trans hsame
  exact hall

end Progress
end BindingPlan
