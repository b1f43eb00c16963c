import Mathlib.Order.Bounds.Basic
import BindingPlan.Proofs.Schedule.Progress
import BindingPlan.Schedule.Commit

/-!
# Settling

Whether a node can settle depends on which nodes are read for good, and more of them never hinder
it. So it does not matter in which order nodes are marked, or how many at a time: marking that goes
on until no other node can settle ends with the least set of nodes that is closed under the rule.

Main results:

* `Progress.exists_rounds_settle`, `Progress.Rounds.le_and_eq_settle`: the loop of rounds ends,
  after at most one round more than there are unread nodes.
* `Progress.settles_settle`: settling changes only which nodes are read for good, and ends when
  nothing is left to settle.
* `Progress.Marks.isLeast`: nodes that are marked until nothing settles are the least closed set.
* `Progress.Marks.eq_settle`: marking ends where settling does, whatever its order.
* `Progress.settlesLeast`: all of this, for one state.
-/

namespace BindingPlan
namespace Progress

variable {net : Net} {progress next last : Progress} {nodes : List Nat}
  {groups others : List (List Nat)} {closed : Set Nat} {count bound i flag : Nat}

/-! ## What settles -/

/-- The flag is the requirement of a conditional whose predicate is read for good, and which may be
needed for no flag outside the set. -/
def SettledFor (net : Net) (progress : Progress) (flag : Nat) (own : FlagSet) : Prop :=
  ∃ c b p, net.flags.requirement? flag = some (c, b) ∧ (net.node c).predicate = some p ∧
    (progress.mark p).isRead = true ∧ ∀ f ∈ (net.node c).conditionalRead, f ∈ own

theorem requirementSettled_eq_true {own : FlagSet} :
    progress.requirementSettled net flag own = true ↔ progress.SettledFor net flag own := by
  unfold requirementSettled SettledFor
  cases hf : net.flags.requirement? flag with
  | none => simp
  | some pair =>
    obtain ⟨c, b⟩ := pair
    cases hp : (net.node c).predicate with
    | none => simp [hp]
    | some p => simp [hp]

theorem settles_eq_true :
    progress.settles net i = true ↔ (net.node i).isDynamic = true ∧
      (progress.mark i).isRead = false ∧
      ∀ f ∈ (net.node i).conditionalRead, f ∉ (progress.mark i).readSoFar →
        progress.SettledFor net f (progress.mark i).readSoFar := by
  simp only [settles, Bool.and_eq_true, Bool.not_eq_true', List.all_eq_true, FlagSet.mem_toList,
    ← FlagSet.mem_iff_contains, FlagSet.mem_diff, requirementSettled_eq_true, and_assoc, and_imp]

/-- Only which nodes are read for good has changed: more of them are, each because nothing but
settled requirements is left for it. -/
structure Settles (net : Net) (progress next : Progress) : Prop where
  size_eq : next.marks.size = progress.marks.size
  mark_eq : ∀ i, next.mark i = { progress.mark i with isRead := (next.mark i).isRead }
  isRead_mono : ∀ i, (progress.mark i).isRead = true → (next.mark i).isRead = true
  settled : ∀ i, (next.mark i).isRead = true → (progress.mark i).isRead = true ∨
    ((net.node i).isDynamic = true ∧
      ∀ f ∈ (net.node i).conditionalRead, f ∉ (progress.mark i).readSoFar →
        next.SettledFor net f (progress.mark i).readSoFar)

theorem SettledFor.mono {own : FlagSet} (h : progress.SettledFor net flag own)
    (hm : ∀ i, (progress.mark i).isRead = true → (next.mark i).isRead = true) :
    next.SettledFor net flag own := by
  obtain ⟨c, b, p, hc, hp, hr, hsub⟩ := h
  exact ⟨c, b, p, hc, hp, hm p hr, hsub⟩

namespace Settles

theorem refl (net : Net) (progress : Progress) : Settles net progress progress :=
  ⟨rfl, fun _ => rfl, fun _ h => h, fun _ h => .inl h⟩

theorem readSoFar_eq (h : Settles net progress next) (i : Nat) :
    (next.mark i).readSoFar = (progress.mark i).readSoFar := by
  rw [h.mark_eq i]

theorem trans {middle : Progress} (h : Settles net progress middle)
    (h' : Settles net middle next) : Settles net progress next where
  size_eq := h'.size_eq.trans h.size_eq
  mark_eq i := by
    have hm := h.mark_eq i
    rw [h'.mark_eq i, hm]
  isRead_mono i hi := h'.isRead_mono i (h.isRead_mono i hi)
  settled i hi := by
    rcases h'.settled i hi with hmiddle | ⟨hd, hs⟩
    · refine (h.settled i hmiddle).imp_right fun ⟨hd, hs⟩ => ⟨hd, fun f hf hnot => ?_⟩
      exact (hs f hf hnot).mono h'.isRead_mono
    · rw [h.readSoFar_eq i] at hs
      exact .inr ⟨hd, hs⟩

end Settles

theorem mark_markRead (hn : ∀ i ∈ nodes, i < progress.marks.size) (i : Nat) :
    (progress.markRead nodes).mark i =
      { progress.mark i with isRead := (progress.mark i).isRead || decide (i ∈ nodes) } := by
  rw [markRead, mark_map]
  · by_cases h : i ∈ nodes <;> simp [h]
  · intro hi
    have : i ∉ nodes := fun h => absurd (hn i h) (by omega)
    simp [this]

/-- The nodes that settle in the next round. -/
def settling (net : Net) (progress : Progress) : List Nat :=
  net.ids.filter (progress.settles net)

/-- The dynamic nodes that are not read for good. -/
def unread (net : Net) (progress : Progress) : List Nat :=
  net.ids.filter fun i => (net.node i).isDynamic && !(progress.mark i).isRead

theorem lt_size_of_settling (hs : progress.marks.size = net.size)
    (hnodes : nodes ⊆ progress.settling net) : ∀ i ∈ nodes, i < progress.marks.size := by
  intro i hi
  rw [hs]
  exact List.mem_range.mp (List.mem_filter.mp (hnodes hi)).1

/-- Nodes that can settle may be marked all at once, or only some of them. -/
theorem settles_markRead (hs : progress.marks.size = net.size)
    (hnodes : nodes ⊆ progress.settling net) : Settles net progress (progress.markRead nodes) := by
  have hn := lt_size_of_settling hs hnodes
  have hm : ∀ i, (progress.mark i).isRead = true →
      ((progress.markRead nodes).mark i).isRead = true := by
    intro i hi
    rw [mark_markRead hn i]
    simp [hi]
  refine ⟨by simp [markRead], fun i => by rw [mark_markRead hn i], hm, fun i hi => ?_⟩
  rw [mark_markRead hn i] at hi
  rcases Bool.or_eq_true_iff.mp hi with hold | hnew
  · exact .inl hold
  · obtain ⟨hd, -, hset⟩ :=
      settles_eq_true.mp (List.mem_filter.mp (hnodes (of_decide_eq_true hnew))).2
    exact .inr ⟨hd, fun f hf hnot => (hset f hf hnot).mono hm⟩

/-- Marking a node that can settle leaves fewer unread nodes. -/
theorem length_unread_markRead_lt (hs : progress.marks.size = net.size)
    (hnodes : nodes ⊆ progress.settling net) (hne : nodes ≠ []) :
    ((progress.markRead nodes).unread net).length < (progress.unread net).length := by
  set next := progress.markRead nodes with hnext
  have hstep : Settles net progress next := settles_markRead hs hnodes
  obtain ⟨i, hi⟩ := List.exists_mem_of_ne_nil _ hne
  obtain ⟨hid, hset⟩ := List.mem_filter.mp (hnodes hi)
  obtain ⟨hd, hr, -⟩ := settles_eq_true.mp hset
  have hread : (next.mark i).isRead = true := by
    rw [hnext, mark_markRead (lt_size_of_settling hs hnodes), decide_eq_true hi, Bool.or_true]
  have heq : next.unread net =
      (progress.unread net).filter fun i => !(next.mark i).isRead := by
    rw [unread, unread, List.filter_filter]
    apply List.filter_congr
    intro j _
    have hmono := hstep.isRead_mono j
    cases hj : (progress.mark j).isRead with
    | false => simp [Bool.and_comm]
    | true => simp [hmono hj]
  rw [heq]
  refine List.length_filter_lt_length_iff_exists.mpr ⟨i, List.mem_filter.mpr ⟨hid, ?_⟩, ?_⟩
  · simp [hd, hr]
  · simp [hread]

/-! ## Marking in any order -/

/-- Groups of nodes are marked as read for good one after another, each when all of its nodes can
settle. -/
inductive Marks (net : Net) : Progress → List (List Nat) → Progress → Prop where
  | nil {progress : Progress} : Marks net progress [] progress
  | cons {progress last : Progress} {nodes : List Nat} {groups : List (List Nat)} :
      nodes ≠ [] → nodes ⊆ progress.settling net → Marks net (progress.markRead nodes) groups last →
      Marks net progress (nodes :: groups) last

namespace Marks

theorem append (h : Marks net progress groups next) (h' : Marks net next others last) :
    Marks net progress (groups ++ others) last := by
  induction h with
  | nil => exact h'
  | cons hne hnodes _ ih => exact .cons hne hnodes (ih h')

variable (hs : progress.marks.size = net.size) (h : Marks net progress groups last)

include hs h

theorem settles : Settles net progress last := by
  induction h with
  | nil => exact .refl net _
  | cons _ hnodes _ ih =>
    have hstep := settles_markRead hs hnodes
    exact hstep.trans (ih (hstep.size_eq.trans hs))

/-- Each group uses up an unread node. -/
theorem length_add_unread_le :
    groups.length + (last.unread net).length ≤ (progress.unread net).length := by
  induction h with
  | nil => rw [List.length_nil, Nat.zero_add]
  | cons hne hnodes _ ih =>
    have hlt := length_unread_markRead_lt hs hnodes hne
    have hrest := ih ((settles_markRead hs hnodes).size_eq.trans hs)
    rw [List.length_cons]
    omega

end Marks

/-- Marking one node at a time ends, since each time there is one unread node less. -/
theorem exists_marks_singly (hs : progress.marks.size = net.size) :
    ∃ (order : List Nat) (last : Progress),
      Marks net progress (order.map ([·])) last ∧ last.settling net = [] := by
  induction hn : (progress.unread net).length using Nat.strongRecOn generalizing progress with
  | ind n ih =>
    subst hn
    cases hsettling : progress.settling net with
    | nil => exact ⟨[], progress, .nil, hsettling⟩
    | cons i rest =>
      have hi : [i] ⊆ progress.settling net := by simp [hsettling]
      obtain ⟨order, last, hmarks, hend⟩ :=
        ih _ (length_unread_markRead_lt hs hi (List.cons_ne_nil i []))
          ((settles_markRead hs hi).size_eq.trans hs) rfl
      exact ⟨i :: order, last, .cons (List.cons_ne_nil i []) hi hmarks, hend⟩

/-! ## Rounds -/

theorem settleRounds_succ (bound : Nat) :
    progress.settleRounds net (bound + 1) =
      if progress.settling net = [] then progress
      else settleRounds net bound (progress.markRead (progress.settling net)) := by
  rw [settleRounds]
  split
  · rename_i h
    exact (if_pos h).symm
  · rename_i h
    exact (if_neg h).symm

theorem settle_of_settling_eq_nil (h : progress.settling net = []) :
    progress.settle net = progress := by
  rw [settle, settleRounds_succ, if_pos h]

/-- The loop that settles nodes: rounds that mark all nodes that can settle, until one of them finds
none. It has no bound, and counts the last round as well. -/
inductive Rounds (net : Net) : Progress → Nat → Progress → Prop where
  | done {progress : Progress} : progress.settling net = [] → Rounds net progress 1 progress
  | again {progress last : Progress} {count : Nat} : progress.settling net ≠ [] →
      Rounds net (progress.markRead (progress.settling net)) count last →
      Rounds net progress (count + 1) last

/-- The loop marks one group in each round but the last one, and ends when nothing settles. -/
theorem Rounds.exists_marks (h : Rounds net progress count last) :
    ∃ groups, Marks net progress groups last ∧ groups.length + 1 = count ∧
      last.settling net = [] := by
  induction h with
  | done hnil => exact ⟨[], .nil, rfl, hnil⟩
  | again hne _ ih =>
    obtain ⟨groups, hmarks, hlength, hend⟩ := ih
    exact ⟨_, .cons hne (List.Subset.refl _) hmarks, congrArg (· + 1) hlength, hend⟩

/-- A bound above the number of unread nodes is not reached. -/
theorem exists_rounds_settleRounds (hs : progress.marks.size = net.size)
    (hb : (progress.unread net).length < bound) :
    ∃ count, Rounds net progress count (progress.settleRounds net bound) := by
  induction bound generalizing progress with
  | zero => omega
  | succ bound ih =>
    rw [settleRounds_succ]
    split_ifs with hnil
    · exact ⟨1, .done hnil⟩
    · have hsub := List.Subset.refl (progress.settling net)
      have hlt := length_unread_markRead_lt hs hsub hnil
      obtain ⟨count, hrounds⟩ := ih ((settles_markRead hs hsub).size_eq.trans hs) (by omega)
      exact ⟨count + 1, .again hnil hrounds⟩

theorem exists_rounds_settle (hs : progress.marks.size = net.size) :
    ∃ count, Rounds net progress count (progress.settle net) :=
  exists_rounds_settleRounds hs (Nat.lt_succ_self _)

theorem exists_marks_settle (hs : progress.marks.size = net.size) :
    ∃ groups, Marks net progress groups (progress.settle net) ∧
      (progress.settle net).settling net = [] := by
  obtain ⟨count, hrounds⟩ := exists_rounds_settle hs
  obtain ⟨groups, hmarks, -, hend⟩ := hrounds.exists_marks
  exact ⟨groups, hmarks, hend⟩

theorem settles_settle (hs : progress.marks.size = net.size) :
    Settles net progress (progress.settle net) ∧ (progress.settle net).settling net = [] := by
  obtain ⟨groups, hmarks, hend⟩ := exists_marks_settle hs
  exact ⟨hmarks.settles hs, hend⟩

/-! ## Closed sets -/

/-- The nodes that are read for good. -/
def readNodes (progress : Progress) : Set Nat :=
  {i | (progress.mark i).isRead = true}

/-- With the given nodes read for good, nothing is left to read of the node: each of its flags is
one that it was read for, or the requirement of a conditional whose predicate is read for good and
which may be needed for no flag that the node was not read for. -/
def NothingLeft (net : Net) (progress : Progress) (read : Set Nat) (i : Nat) : Prop :=
  ∀ f ∈ (net.node i).conditionalRead, f ∉ (progress.mark i).readSoFar →
    ∃ c b p, net.flags.requirement? f = some (c, b) ∧ (net.node c).predicate = some p ∧ p ∈ read ∧
      ∀ f' ∈ (net.node c).conditionalRead, f' ∈ (progress.mark i).readSoFar

/-- A set that holds the nodes that are read for good, and with them every dynamic node of which
nothing is left to read. -/
structure ClosedUnderSettling (net : Net) (progress : Progress) (nodes : Set Nat) : Prop where
  mem_of_isRead : ∀ i, (progress.mark i).isRead = true → i ∈ nodes
  mem_of_nothingLeft : ∀ i, (net.node i).isDynamic = true → progress.NothingLeft net nodes i →
    i ∈ nodes

theorem NothingLeft.mono {read other : Set Nat} (h : progress.NothingLeft net read i)
    (hsub : read ⊆ other) : progress.NothingLeft net other i := by
  intro f hf hnot
  obtain ⟨c, b, p, hc, hp, hread, hown⟩ := h f hf hnot
  exact ⟨c, b, p, hc, hp, hsub hread, hown⟩

theorem mem_settling : i ∈ progress.settling net ↔ (net.node i).isDynamic = true ∧
    (progress.mark i).isRead = false ∧ progress.NothingLeft net progress.readNodes i := by
  rw [settling, List.mem_filter, settles_eq_true]
  exact and_iff_right_of_imp fun h => List.mem_range.mpr (Net.lt_size_of_dynamic h.1)

theorem Settles.nothingLeft_iff (h : Settles net progress next) {read : Set Nat} :
    next.NothingLeft net read i ↔ progress.NothingLeft net read i := by
  unfold NothingLeft
  rw [h.readSoFar_eq i]

/-- What can settle lies in every closed set, so that a closed set stays one. -/
theorem ClosedUnderSettling.markRead (h : ClosedUnderSettling net progress closed)
    (hs : progress.marks.size = net.size) (hnodes : nodes ⊆ progress.settling net) :
    ClosedUnderSettling net (progress.markRead nodes) closed := by
  have hstep := settles_markRead hs hnodes
  refine ⟨fun i hi => ?_, fun i hd hleft => ?_⟩
  · rw [mark_markRead (lt_size_of_settling hs hnodes)] at hi
    rcases Bool.or_eq_true_iff.mp hi with hold | hnew
    · exact h.mem_of_isRead i hold
    · obtain ⟨hd, -, hleft⟩ := mem_settling.mp (hnodes (of_decide_eq_true hnew))
      exact h.mem_of_nothingLeft i hd (hleft.mono h.mem_of_isRead)
  · exact h.mem_of_nothingLeft i hd (hstep.nothingLeft_iff.mp hleft)

/-- Once nothing settles, the nodes that are read for good are a closed set. -/
theorem Settles.closed_readNodes (h : Settles net progress last) (hend : last.settling net = []) :
    ClosedUnderSettling net progress last.readNodes := by
  refine ⟨h.isRead_mono, fun i hd hleft => ?_⟩
  by_contra hnot
  have hi : i ∈ last.settling net :=
    mem_settling.mpr ⟨hd, by simpa [readNodes] using hnot, h.nothingLeft_iff.mpr hleft⟩
  rw [hend] at hi
  exact List.not_mem_nil hi

/-- After settling, a node is read for good if it was, or if only settled requirements are left. -/
theorem isRead_settle (hs : progress.marks.size = net.size) (i : Nat) :
    ((progress.settle net).mark i).isRead = true ↔ (progress.mark i).isRead = true ∨
      ((net.node i).isDynamic = true ∧
        ∀ f ∈ (net.node i).conditionalRead, f ∉ (progress.mark i).readSoFar →
          (progress.settle net).SettledFor net f (progress.mark i).readSoFar) := by
  obtain ⟨hset, hend⟩ : Settles net progress (progress.settle net) ∧ _ := settles_settle hs
  have hclosed := hset.closed_readNodes hend
  refine ⟨hset.settled i, ?_⟩
  rintro (hold | ⟨hd, hleft⟩)
  · exact hclosed.mem_of_isRead i hold
  · exact hclosed.mem_of_nothingLeft i hd hleft

namespace Marks

variable (hs : progress.marks.size = net.size) (h : Marks net progress groups last)

include hs h

theorem closed_of_closed (hclosed : ClosedUnderSettling net progress closed) :
    ClosedUnderSettling net last closed := by
  induction h with
  | nil => exact hclosed
  | cons _ hnodes _ ih =>
    exact ih ((settles_markRead hs hnodes).size_eq.trans hs) (hclosed.markRead hs hnodes)

theorem isLeast (hend : last.settling net = []) :
    IsLeast {nodes | ClosedUnderSettling net progress nodes} last.readNodes :=
  ⟨(h.settles hs).closed_readNodes hend,
    fun _ hclosed => (h.closed_of_closed hs hclosed).mem_of_isRead⟩

end Marks

/-- Only which nodes are read for good can tell two ends apart. -/
theorem Settles.eq (h : Settles net progress next) (h' : Settles net progress last)
    (hread : next.readNodes = last.readNodes) : next = last := by
  refine ext_mark (h.size_eq.trans h'.size_eq.symm) fun i _ => ?_
  have hsame : (next.mark i).isRead = (last.mark i).isRead :=
    Bool.eq_iff_iff.mpr (Set.ext_iff.mp hread i)
  rw [h.mark_eq i, h'.mark_eq i, hsame]

theorem isLeast_settle (hs : progress.marks.size = net.size) :
    IsLeast {nodes | ClosedUnderSettling net progress nodes} (progress.settle net).readNodes := by
  obtain ⟨groups, hmarks, hend⟩ := exists_marks_settle hs
  exact hmarks.isLeast hs hend

/-- Marking ends where settling does, in whatever order the nodes are marked. -/
theorem Marks.eq_settle (hs : progress.marks.size = net.size) (h : Marks net progress groups last)
    (hend : last.settling net = []) : last = progress.settle net :=
  (h.settles hs).eq (settles_settle hs).1 ((h.isLeast hs hend).unique (isLeast_settle hs))

/-- The loop has no other end, and each round but the last one uses up an unread node. -/
theorem Rounds.le_and_eq_settle (hs : progress.marks.size = net.size)
    (h : Rounds net progress count last) :
    count ≤ (progress.unread net).length + 1 ∧ last = progress.settle net := by
  obtain ⟨groups, hmarks, rfl, hend⟩ := h.exists_marks
  have := hmarks.length_add_unread_le hs
  exact ⟨by omega, hmarks.eq_settle hs hend⟩

/-! ## A state and what settles in it -/

/-- The loop of rounds ends, with at most one round more than there are unread nodes. It changes
only which nodes are read for good, and leaves the least closed set of them. Marking in any other
order, node by node or in groups, ends as well: no order goes on for longer than there are unread
nodes, none has another end, and none leads away from this end. -/
structure SettlesLeast (net : Net) (progress : Progress) : Prop where
  ends : ∃ count, Rounds net progress count (progress.settle net)
  rounds : ∀ count last, Rounds net progress count last →
    count ≤ (progress.unread net).length + 1 ∧ last = progress.settle net
  frame : ∀ i, (progress.settle net).mark i =
    { progress.mark i with isRead := ((progress.settle net).mark i).isRead }
  isLeast :
    IsLeast {nodes | ClosedUnderSettling net progress nodes} (progress.settle net).readNodes
  length_le : ∀ groups last, Marks net progress groups last →
    groups.length ≤ (progress.unread net).length
  eq_settle : ∀ groups last, Marks net progress groups last → last.settling net = [] →
    last = progress.settle net
  extends_singly : ∀ groups last, Marks net progress groups last →
    ∃ order : List Nat, Marks net last (order.map ([·])) (progress.settle net)

theorem settlesLeast (hs : progress.marks.size = net.size) : progress.SettlesLeast net where
  ends := exists_rounds_settle hs
  rounds _ _ h := h.le_and_eq_settle hs
  frame := (settles_settle hs).1.mark_eq
  isLeast := isLeast_settle hs
  length_le groups last h := Nat.le_trans (Nat.le_add_right _ _) (h.length_add_unread_le hs)
  eq_settle groups last h hend := h.eq_settle hs hend
  extends_singly groups last h := by
    obtain ⟨order, final, hmarks, hend⟩ := exists_marks_singly ((h.settles hs).size_eq.trans hs)
    rw [← (h.append hmarks).eq_settle hs hend]
    exact ⟨order, hmarks⟩

end Progress
end BindingPlan
