import Mathlib.Data.Finset.Card
import Mathlib.Data.Set.Function
import BindingPlan.Proofs.Graph.FlagTable
import BindingPlan.Proofs.Net.Renaming

/-!
# Renaming a graph

Nodes are numbered in the order in which they are registered, and flags in the order of the nodes.
A bijection between the nodes of two graphs that keeps what planning looks at renames one net into
the other; flags are renamed along with what they stand for.

Main results:

* `Graph.Renames.exists_perm`: a bijection between nodes as a permutation.
* `Graph.Renames.exists_net`: the nets of the two graphs are the same up to names.
-/

namespace BindingPlan

/-! ## Permutations -/

/-- A bijection between initial segments goes on as a permutation that keeps the other numbers. -/
theorem exists_perm_of_bijOn {rename : Nat → Nat} {m n : Nat}
    (h : Set.BijOn rename (Set.Iio m) (Set.Iio n)) :
    n = m ∧ ∃ perm : Nat ≃ Nat, ∀ i, perm i = if i < m then rename i else i := by
  have hcard : (Finset.range m).card = (Finset.range n).card := by
    refine Finset.card_nbij rename ?_ ?_ ?_
    · simpa using h.mapsTo
    · simpa using h.injOn
    · simpa using h.surjOn
  rw [Finset.card_range, Finset.card_range] at hcard
  subst hcard
  have hmaps : ∀ i < m, rename i < m := fun i hi => h.mapsTo hi
  have hbijective : Function.Bijective fun i => if i < m then rename i else i := by
    constructor
    · intro i j hij
      dsimp only at hij
      split_ifs at hij with hi hj hj
      · exact h.injOn hi hj hij
      · have := hmaps i hi
        omega
      · have := hmaps j hj
        omega
      · exact hij
    · intro j
      by_cases hj : j < m
      · obtain ⟨i, hi, hij⟩ := h.surjOn hj
        exact ⟨i, (if_pos hi).trans hij⟩
      · exact ⟨j, if_neg hj⟩
  exact ⟨rfl, Equiv.ofBijective _ hbijective, fun _ => rfl⟩

/-! ## Nodes -/

/-- The kind without the name under which a class was imported. -/
def Kind.unaliased : Kind → Kind
  | .classRef _ qualified => .classRef "" qualified
  | kind => kind

namespace Kind

@[simp] theorem isConditional_unaliased (kind : Kind) :
    kind.unaliased.isConditional = kind.isConditional := by
  cases kind <;> rfl

@[simp] theorem isIdentifier_unaliased (kind : Kind) :
    kind.unaliased.isIdentifier = kind.isIdentifier := by
  cases kind <;> rfl

@[simp] theorem isField_unaliased (kind : Kind) : kind.unaliased.isField = kind.isField := by
  cases kind <;> rfl

@[simp] theorem branchAt?_unaliased (kind : Kind) (position : Nat) :
    kind.unaliased.branchAt? position = kind.branchAt? position := by
  cases kind <;> rfl

@[simp] theorem hasReceiver_unaliased (kind : Kind) :
    kind.unaliased.hasReceiver = kind.hasReceiver := by
  cases kind <;> rfl

end Kind

/-- The second node is the first one in another graph, where the children have other names. -/
@[mk_iff]
structure Node.Renames (rename : Nat → Nat) (node other : Node) : Prop where
  kind : other.kind.unaliased = node.kind.unaliased
  children : other.children = node.children.map rename
  isBinding : other.isBinding = node.isBinding
  isDynamic : other.isDynamic = node.isDynamic
  observable : other.resolvedType.any ClassType.observable =
    node.resolvedType.any ClassType.observable
  bindable : other.member.any Member.bindable = node.member.any Member.bindable

instance (rename : Nat → Nat) (node other : Node) : Decidable (node.Renames rename other) :=
  decidable_of_iff' _ (node.renames_iff rename other)

namespace Node.Renames

variable {rename : Nat → Nat} {node other : Node} (h : node.Renames rename other)
include h

theorem isConditional : other.kind.isConditional = node.kind.isConditional := by
  rw [← Kind.isConditional_unaliased, h.kind, Kind.isConditional_unaliased]

theorem isIdentifier : other.kind.isIdentifier = node.kind.isIdentifier := by
  rw [← Kind.isIdentifier_unaliased, h.kind, Kind.isIdentifier_unaliased]

theorem isField : other.kind.isField = node.kind.isField := by
  rw [← Kind.isField_unaliased, h.kind, Kind.isField_unaliased]

theorem predicate? : other.predicate? = node.predicate?.map rename := by
  unfold Node.predicate?
  rw [h.isConditional, h.children, List.head?_map]
  split_ifs <;> rfl

theorem plainDependency (position child : Nat) :
    other.kind.plainDependency position (rename child) =
      (node.kind.plainDependency position child).rename rename := by
  unfold Kind.plainDependency
  rw [← Kind.hasReceiver_unaliased, h.kind, Kind.hasReceiver_unaliased]
  rfl

theorem guardedDependency? (predicate position child : Nat) :
    other.kind.guardedDependency? (rename predicate) position (rename child) =
      (node.kind.guardedDependency? predicate position child).map (Dependency.rename rename) := by
  unfold Kind.guardedDependency?
  rw [← Kind.branchAt?_unaliased, h.kind, Kind.branchAt?_unaliased]
  split_ifs
  · rfl
  · rw [Option.map_map]
    rfl

/-- The edges of a node are those of the other one, with the names of their targets. -/
theorem dependencies {dynamic dynamic' : Nat → Bool}
    (hdynamic : ∀ child, dynamic' (rename child) = dynamic child) :
    other.dependencies dynamic' = (node.dependencies dynamic).map (Dependency.rename rename) := by
  have hchildren : other.children.zipIdx.filter (dynamic' ·.1) =
      (node.children.zipIdx.filter (dynamic ·.1)).map (Prod.map rename id) := by
    rw [h.children, List.zipIdx_map, List.filter_map]
    congr 1
    exact List.filter_congr fun pair _ => hdynamic pair.1
  have hplain : (other.children.zipIdx.filter (dynamic' ·.1)).map
        (fun pair => other.kind.plainDependency pair.2 pair.1) =
      ((node.children.zipIdx.filter (dynamic ·.1)).map
        fun pair => node.kind.plainDependency pair.2 pair.1).map (Dependency.rename rename) := by
    rw [hchildren, List.map_map, List.map_map]
    exact List.map_congr_left fun pair _ => h.plainDependency pair.2 pair.1
  have hguarded (predicate : Nat) : (other.children.zipIdx.filter (dynamic' ·.1)).filterMap
        (fun pair => other.kind.guardedDependency? (rename predicate) pair.2 pair.1) =
      ((node.children.zipIdx.filter (dynamic ·.1)).filterMap fun pair =>
        node.kind.guardedDependency? predicate pair.2 pair.1).map (Dependency.rename rename) := by
    rw [hchildren, List.filterMap_map, List.map_filterMap]
    exact List.filterMap_congr fun pair _ => h.guardedDependency? predicate pair.2 pair.1
  unfold Node.dependencies
  rw [h.isDynamic, h.predicate?]
  split_ifs
  · rfl
  · cases node.predicate? with
    | none => exact hplain
    | some predicate =>
      dsimp only [Option.map_some]
      rw [hdynamic]
      split_ifs
      · exact hguarded predicate
      · exact hplain

end Node.Renames

/-! ## Graphs -/

namespace Graph

variable {graph other : Graph}

/-- Under a bijection between their nodes the graphs are the same, as far as planning looks at
them. -/
structure Renames (rename : Nat → Nat) (graph other : Graph) : Prop where
  bijOn : Set.BijOn rename (Set.Iio graph.size) (Set.Iio other.size)
  node : ∀ i < graph.size, (graph.node i).Renames rename (other.node (rename i))

instance (rename : Nat → Nat) (graph other : Graph) : Decidable (graph.Renames rename other) :=
  decidable_of_iff
    (((∀ i < graph.size, rename i < other.size) ∧
        (∀ i < graph.size, ∀ j < graph.size, rename i = rename j → i = j) ∧
        ∀ j < other.size, ∃ i < graph.size, rename i = j) ∧
      ∀ i < graph.size, (graph.node i).Renames rename (other.node (rename i)))
    ⟨fun h => ⟨⟨fun i hi => h.1.1 i hi, fun i hi j hj => h.1.2.1 i hi j hj, h.1.2.2⟩, h.2⟩,
      fun h => ⟨⟨fun _ hi => h.bijOn.mapsTo hi, fun _ hi _ hj => h.bijOn.injOn hi hj,
        fun _ hj => h.bijOn.surjOn hj⟩, h.node⟩⟩

/-- The same under a permutation of all numbers. -/
structure Permutes (onNodes : Nat ≃ Nat) (graph other : Graph) : Prop where
  lt_size_iff : ∀ i, onNodes i < other.size ↔ i < graph.size
  node : ∀ i, (graph.node i).Renames onNodes (other.node (onNodes i))

/-- A bijection between nodes goes on as a permutation, which keeps the blank nodes behind them. -/
theorem Renames.exists_perm {rename : Nat → Nat} (h : graph.Renames rename other)
    (hlinked : graph.Linked) : ∃ onNodes : Nat ≃ Nat, (∀ i < graph.size, onNodes i = rename i) ∧
      graph.Permutes onNodes other := by
  obtain ⟨hsize, onNodes, hperm⟩ := exists_perm_of_bijOn h.bijOn
  have hrename : ∀ i < graph.size, onNodes i = rename i := fun i hi => by rw [hperm, if_pos hi]
  refine ⟨onNodes, hrename, fun i => ?_, fun i => ?_⟩
  · by_cases hi : i < graph.size
    · rw [hrename i hi]
      exact iff_of_true (h.bijOn.mapsTo hi) hi
    · rw [hperm, if_neg hi, hsize]
  · by_cases hi : i < graph.size
    · obtain ⟨hkind, hchildren, hbinding, hdynamic, hobservable, hbindable⟩ := h.node i hi
      rw [hrename i hi]
      refine ⟨hkind, hchildren.trans ?_, hbinding, hdynamic, hobservable, hbindable⟩
      exact List.map_congr_left fun child hchild =>
        (hrename child (hlinked.children_lt hchild)).symm
    · rw [hperm, if_neg hi, node_of_size_le (by omega), node_of_size_le (by omega)]
      exact ⟨rfl, rfl, rfl, rfl, rfl, rfl⟩

namespace Permutes

variable {onNodes : Nat ≃ Nat} (h : graph.Permutes onNodes other)
include h

theorem isDynamic (i : Nat) : other.isDynamic (onNodes i) = graph.isDynamic i :=
  (h.node i).isDynamic

theorem isObservable (i : Nat) : other.isObservable (onNodes i) = graph.isObservable i := by
  unfold Graph.isObservable
  rw [h.isDynamic, (h.node i).observable]

theorem isBindableField (i : Nat) :
    other.isBindableField (onNodes i) = graph.isBindableField i := by
  unfold Graph.isBindableField
  dsimp only
  rw [(h.node i).isField, (h.node i).isDynamic, (h.node i).bindable]

theorem announces_iff (i : Nat) : other.Announces (onNodes i) ↔ graph.Announces i := by
  unfold Announces
  rw [(h.node i).isIdentifier, h.isObservable, h.isBindableField, (h.node i).children]
  simp only [List.mem_map, exists_exists_and_eq_and, h.isObservable]

theorem dependencies (i : Nat) : other.dependencies (onNodes i) =
    (graph.dependencies i).map (Dependency.rename onNodes) :=
  (h.node i).dependencies h.isDynamic

end Permutes
end Graph

/-! ## Flags -/

/-- What a flag stands for, with the names of the nodes. -/
def Purpose.rename (rename : Nat → Nat) : Purpose → Purpose
  | .invalidation id => .invalidation (rename id)
  | .invalidateAll => .invalidateAll
  | .requirement id branch => .requirement (rename id) branch

theorem Purpose.rename_injective {rename : Nat → Nat} (h : Function.Injective rename) :
    Function.Injective (Purpose.rename rename) := by
  intro purpose purpose' heq
  cases purpose <;> cases purpose' <;> simp_all [Purpose.rename, h.eq_iff]

theorem Purpose.rename_surjective {rename : Nat → Nat} (h : Function.Surjective rename) :
    Function.Surjective (Purpose.rename rename) := by
  intro purpose
  cases purpose with
  | invalidation id =>
    obtain ⟨i, rfl⟩ := h id
    exact ⟨.invalidation i, rfl⟩
  | invalidateAll => exact ⟨.invalidateAll, rfl⟩
  | requirement id branch =>
    obtain ⟨i, rfl⟩ := h id
    exact ⟨.requirement i branch, rfl⟩

namespace Graph

variable {graph other : Graph} {onNodes : Nat ≃ Nat} {purpose : Purpose}

/-- The graph has a flag for this. -/
def Needs (graph : Graph) : Purpose → Prop
  | .invalidation id => id < graph.size ∧ graph.Announces id
  | .invalidateAll => True
  | .requirement id _ => id < graph.size ∧ (graph.node id).kind.isConditional = true

theorem Linked.mem_purposes (h : graph.Linked) :
    purpose ∈ graph.flagTable.purposes ↔ graph.Needs purpose := by
  unfold flagTable
  cases purpose with
  | invalidation id => simp [Needs, h.mem_invalidated]
  | invalidateAll => simp [Needs]
  | requirement id branch => cases branch <;> simp [Needs, mem_conditionals]

theorem nodup_purposes : graph.flagTable.purposes.Nodup := by
  refine List.nodup_append.mpr ⟨List.nodup_append.mpr ⟨?_, List.nodup_singleton _, ?_⟩, ?_, ?_⟩
  · exact nodup_invalidated.map fun _ _ heq => Purpose.invalidation.inj heq
  · simp
  · refine List.nodup_flatMap.mpr ⟨by simp, nodup_conditionals.imp fun hne => ?_⟩
    simp [Function.onFun, hne.symm]
  · intro purpose hfront purpose' hpair heq
    rw [← heq] at hpair
    simp only [List.mem_flatMap, List.mem_cons, List.not_mem_nil, or_false] at hpair
    obtain ⟨id, -, rfl | rfl⟩ := hpair <;> simp at hfront

theorem Permutes.needs_iff (h : graph.Permutes onNodes other) :
    other.Needs (purpose.rename onNodes) ↔ graph.Needs purpose := by
  cases purpose with
  | invalidation id => exact and_congr (h.lt_size_iff id) (h.announces_iff id)
  | invalidateAll => exact Iff.rfl
  | requirement id branch =>
    refine and_congr (h.lt_size_iff id) ?_
    rw [(h.node id).isConditional]

end Graph

/-- The flag of another table that stands for the same, up to the names of nodes. A number that is
no flag stays. -/
def FlagTable.renamedFlag (rename : Nat → Nat) (table other : FlagTable) (flag : Nat) : Nat :=
  (table.purpose? flag).elim flag fun purpose => other.purposes.idxOf (purpose.rename rename)

section

variable {table other : FlagTable} {onNodes : Nat ≃ Nat}
  (hn : table.purposes.Nodup) (hn' : other.purposes.Nodup)
  (hmem : ∀ purpose, purpose.rename onNodes ∈ other.purposes ↔ purpose ∈ table.purposes)

include hmem

theorem purpose?_renamedFlag {flag : Nat} {purpose : Purpose}
    (h : table.purpose? flag = some purpose) :
    other.purpose? (table.renamedFlag onNodes other flag) = some (purpose.rename onNodes) := by
  unfold FlagTable.renamedFlag
  rw [h, Option.elim_some]
  exact List.getElem?_idxOf ((hmem purpose).mpr (List.mem_of_getElem? h))

include hn hn'

/-- Tables of flags for the same, up to the names of nodes, number them differently. -/
theorem bijOn_renamedFlag : Set.BijOn (table.renamedFlag onNodes other) (Set.Iio table.size)
    (Set.Iio other.size) := by
  have hget : ∀ flag < table.size, ∃ purpose, table.purpose? flag = some purpose :=
    fun flag hflag => ⟨_, List.getElem?_eq_getElem hflag⟩
  refine ⟨fun flag hflag => ?_, fun flag hflag flag' hflag' heq => ?_, fun flag hflag => ?_⟩
  · obtain ⟨purpose, hpurpose⟩ := hget flag hflag
    exact (List.getElem?_eq_some_iff.mp (purpose?_renamedFlag hmem hpurpose)).1
  · obtain ⟨purpose, hpurpose⟩ := hget flag hflag
    obtain ⟨purpose', hpurpose'⟩ := hget flag' hflag'
    have hsame := (purpose?_renamedFlag hmem hpurpose).symm.trans
      ((congrArg _ heq).trans (purpose?_renamedFlag hmem hpurpose'))
    have hsame := Purpose.rename_injective onNodes.injective (Option.some.inj hsame)
    exact (List.getElem?_inj hflag hn).mp
      (hpurpose.trans ((congrArg some hsame).trans hpurpose'.symm))
  · have hflag : flag < other.purposes.length := hflag
    obtain ⟨purpose, hpurpose⟩ := Purpose.rename_surjective onNodes.surjective other.purposes[flag]
    have hpresent := (hmem purpose).mp (hpurpose ▸ List.getElem_mem hflag)
    obtain ⟨found, hfound⟩ := List.getElem?_of_mem hpresent
    have hsame : other.purposes[flag]? = some (purpose.rename onNodes) := by
      rw [hpurpose, List.getElem?_eq_getElem hflag]
    refine ⟨found, (List.getElem?_eq_some_iff.mp hfound).1, ?_⟩
    exact ((List.getElem?_inj hflag hn').mp
      (hsame.trans (purpose?_renamedFlag hmem hfound).symm)).symm

/-- Flags are renamed along with what they stand for. -/
theorem exists_onFlags : ∃ onFlags : Nat ≃ Nat,
    (∀ flag, onFlags flag = table.renamedFlag onNodes other flag) ∧
      ∀ flag purpose, other.purpose? (onFlags flag) = some (purpose.rename onNodes) ↔
        table.purpose? flag = some purpose := by
  obtain ⟨hsize, onFlags, hperm⟩ := exists_perm_of_bijOn (bijOn_renamedFlag hn hn' hmem)
  have hrenamed (flag : Nat) : onFlags flag = table.renamedFlag onNodes other flag := by
    rw [hperm]
    split_ifs with hflag
    · rfl
    · unfold FlagTable.renamedFlag FlagTable.purpose?
      rw [List.getElem?_eq_none (Nat.le_of_not_lt hflag), Option.elim_none]
  refine ⟨onFlags, hrenamed, fun flag purpose => ⟨fun h => ?_, fun h => ?_⟩⟩
  · by_cases hflag : flag < table.size
    · have hfound : table.purpose? flag = some table.purposes[flag] :=
        List.getElem?_eq_getElem hflag
      rw [hrenamed, purpose?_renamedFlag hmem hfound] at h
      rw [hfound, Purpose.rename_injective onNodes.injective (Option.some.inj h)]
    · rw [hperm, if_neg hflag] at h
      have := (List.getElem?_eq_some_iff.mp h).1
      exact absurd (hsize ▸ this) hflag
  · rw [hrenamed]
    exact purpose?_renamedFlag hmem h

end

namespace Graph

variable {graph other : Graph} {onNodes : Nat ≃ Nat}

theorem isBinding_bareNet (order : List Nat) (i : Nat) :
    ((graph.bareNet order).node i).isBinding = (graph.node i).isBinding :=
  part_bareNet NetNode.isBinding order rfl fun hi => by
    rw [node_of_size_le hi]
    rfl

theorem Permutes.exists_onFlags (h : graph.Permutes onNodes other) (hlinked : graph.Linked)
    (hlinked' : other.Linked) {net net' : Net} (hnet : graph.net? = .ok net)
    (hnet' : other.net? = .ok net') : ∃ onFlags : Nat ≃ Nat,
      (∀ flag, onFlags flag = net.flags.renamedFlag onNodes net'.flags flag) ∧
        Net.Renames onNodes onFlags net net' := by
  have hw := wellFormed_of_net? hnet
  have hw' := wellFormed_of_net? hnet'
  obtain ⟨order, -, rfl⟩ := net?_eq_ok hnet
  obtain ⟨order', -, rfl⟩ := net?_eq_ok hnet'
  have hmem (purpose : Purpose) : purpose.rename onNodes ∈ other.flagTable.purposes ↔
      purpose ∈ graph.flagTable.purposes := by
    rw [hlinked.mem_purposes, hlinked'.mem_purposes, h.needs_iff]
  obtain ⟨onFlags, hrenamed, hpurpose⟩ :=
    BindingPlan.exists_onFlags nodup_purposes nodup_purposes hmem
  have hexact := hlinked.flagsExact order
  have hexact' := hlinked'.flagsExact order'
  refine ⟨onFlags, hrenamed, ?_⟩
  constructor
  · intro i
    rw [Net.size_withFlow, Net.size_withFlow, size_bareNet, size_bareNet, h.lt_size_iff]
  · intro i
    rw [Net.isDynamic_withFlow, Net.isDynamic_withFlow, isDynamic_bareNet, isDynamic_bareNet,
      h.isDynamic]
  · intro i
    rw [Net.isBinding_withFlow, Net.isBinding_withFlow, isBinding_bareNet, isBinding_bareNet,
      (h.node i).isBinding]
  · intro i f
    rw [hexact.flag_iff, hexact'.flag_iff]
    exact hpurpose f (.invalidation i)
  · intro i b f
    rw [← hw.requirement_iff, ← hw'.requirement_iff, requirement?_eq_some, requirement?_eq_some]
    exact hpurpose f (.requirement i b)
  · intro i
    rw [Net.predicate_withFlow, Net.predicate_withFlow, predicate_bareNet, predicate_bareNet,
      (h.node i).predicate?]
  · intro i
    rw [Net.dependencies_withFlow, Net.dependencies_withFlow, dependencies_bareNet,
      dependencies_bareNet, h.dependencies]
  · refine ((hexact'.invalidateAll_iff _).mp ?_).symm
    exact (hpurpose _ .invalidateAll).mpr ((hexact.invalidateAll_iff _).mpr rfl)

end Graph
end BindingPlan
