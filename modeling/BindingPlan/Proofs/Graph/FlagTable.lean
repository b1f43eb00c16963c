import BindingPlan.Proofs.Graph.Built

/-!
# The flags of a sealed graph

Sealing hands out the flags. A node gets an invalidation flag if its changes are announced: once,
although a node can be met on several of the ways on which nodes are looked for. One flag for the
invalidation of everything follows. Behind it the conditionals get their pairs.

The accesses to members that announce changes are looked for among the parents of observable nodes,
so the table is complete only because parents mirror children. It is for built graphs.

Main results:

* `Graph.Linked.mem_invalidated`: the nodes with an invalidation flag are those that announce
  changes.
* `Graph.flagsExact_of_freshlyBuilt`: the flags of a built graph that was just sealed.
-/

namespace BindingPlan
namespace Graph

variable {graph : Graph} {id flag : Nat}

/-! ## Nodes with an invalidation flag -/

/-- Changes of the value reach the node from outside: it is a variable, it is dynamic with an
observable type, or it is a dynamic access to a bindable member of a dynamic child with an
observable type. -/
def Announces (graph : Graph) (id : Nat) : Prop :=
  (graph.node id).kind.isIdentifier = true ∨ graph.isObservable id = true ∨
    graph.isBindableField id = true ∧
      ∃ child ∈ (graph.node id).children, graph.isObservable child = true

/-- Parents mirror children, so the accesses below which there is an observable node are found. -/
theorem Linked.mem_bindableFields (h : graph.Linked) : id ∈ graph.bindableFields ↔
    (∃ child ∈ (graph.node id).children, graph.isObservable child = true) ∧
      graph.isBindableField id = true ∧ graph.isObservable id = false := by
  unfold bindableFields
  simp only [List.mem_filter, List.mem_eraseDups, List.mem_flatMap, mem_observables,
    h.mem_parents, Bool.and_eq_true, Bool.not_eq_true']
  exact and_congr_left' (exists_congr fun _ => and_comm)

/-- The nodes with an invalidation flag are those that announce changes. -/
theorem Linked.mem_invalidated (h : graph.Linked) :
    id ∈ graph.invalidated ↔ id < graph.size ∧ graph.Announces id := by
  unfold invalidated Announces
  simp only [List.mem_append, mem_observables, mem_plainVariables, h.mem_bindableFields]
  constructor
  · rintro ((hobservable | ⟨hlt, hidentifier, -⟩) | ⟨hchild, hfield, -⟩)
    · exact ⟨lt_size_of_isDynamic (isDynamic_of_isObservable hobservable), .inr (.inl hobservable)⟩
    · exact ⟨hlt, .inl hidentifier⟩
    · exact ⟨lt_size_of_isDynamic (isField_of_isBindableField hfield).2,
        .inr (.inr ⟨hfield, hchild⟩)⟩
  · rintro ⟨hlt, hannounces⟩
    by_cases hobservable : graph.isObservable id = true
    · exact .inl (.inl hobservable)
    · have hplain := Bool.eq_false_of_not_eq_true hobservable
      obtain hidentifier | hobservable' | ⟨hfield, hchild⟩ := hannounces
      · exact .inl (.inr ⟨hlt, hidentifier, hplain⟩)
      · exact absurd hobservable' hobservable
      · exact .inr ⟨hchild, hfield, hplain⟩

/-! ## Flags of the net -/

theorem flag_bareNet (h : graph.Linked) (order : List Nat) (i : Nat) :
    ((graph.bareNet order).node i).flag = graph.invalidated.idxOf? i := by
  refine part_bareNet NetNode.flag order rfl fun hi => ?_
  refine (List.idxOf?_eq_none_iff.mpr fun hmem => ?_).symm
  exact Nat.not_lt_of_le hi (h.mem_invalidated.mp hmem).1

theorem requirementBase_bareNet (order : List Nat) (i : Nat) :
    ((graph.bareNet order).node i).requirementBase =
      (graph.conditionals.idxOf? i).map (graph.limit + 2 * ·) := by
  refine part_bareNet NetNode.requirementBase order rfl fun hi => ?_
  have hnone : graph.conditionals.idxOf? i = none :=
    List.idxOf?_eq_none_iff.mpr fun hmem => Nat.not_lt_of_le hi (mem_conditionals.mp hmem).1
  rw [hnone]
  rfl

/-- A flag belongs to a node, invalidates everything, or is one of a pair. -/
theorem flag_cases (graph : Graph) (flag : Nat) :
    flag < graph.allFlag ∨ flag = graph.allFlag ∨ graph.limit ≤ flag := by
  unfold limit
  omega

theorem purpose?_of_lt_allFlag (h : flag < graph.allFlag) :
    graph.flagTable.purpose? flag = graph.invalidated[flag]?.map .invalidation := by
  unfold flagTable FlagTable.purpose?
  unfold allFlag at h
  rw [List.append_assoc, List.getElem?_append_left (by simpa using h), List.getElem?_map]

theorem purpose?_allFlag : graph.flagTable.purpose? graph.allFlag = some .invalidateAll := by
  unfold flagTable FlagTable.purpose? allFlag
  rw [List.append_assoc, List.getElem?_append_right (by simp)]
  simp

/-- The pair of a position behind the limit. -/
theorem purpose?_of_limit_le (h : graph.limit ≤ flag) : graph.flagTable.purpose? flag =
    graph.conditionals[(flag - graph.limit) / 2]?.map fun id =>
      .requirement id ((flag - graph.limit) % 2 == 1) := by
  have hlength : (graph.invalidated.map Purpose.invalidation ++ [Purpose.invalidateAll]).length =
      graph.limit := by simp [limit, allFlag]
  unfold flagTable FlagTable.purpose?
  rw [List.getElem?_append_right (by omega), getElem?_flatMap_pair Purpose.requirement, hlength]

theorem purpose?_invalidation_iff :
    graph.flagTable.purpose? flag = some (.invalidation id) ↔
      graph.invalidated[flag]? = some id := by
  obtain hlt | rfl | hle := graph.flag_cases flag
  · rw [purpose?_of_lt_allFlag hlt]
    simp
  · rw [purpose?_allFlag, allFlag]
    simp
  · rw [purpose?_of_limit_le hle]
    have hnone : graph.invalidated[flag]? = none := by
      unfold limit allFlag at hle
      exact List.getElem?_eq_none (by omega)
    simp [hnone]

theorem purpose?_invalidateAll_iff :
    graph.flagTable.purpose? flag = some .invalidateAll ↔ flag = graph.allFlag := by
  obtain hlt | rfl | hle := graph.flag_cases flag
  · rw [purpose?_of_lt_allFlag hlt]
    simp [Nat.ne_of_lt hlt]
  · exact iff_of_true purpose?_allFlag rfl
  · rw [purpose?_of_limit_le hle]
    unfold limit at hle
    simp [show flag ≠ graph.allFlag by omega]

/-! ## The table -/

/-- The flags of a net are those that the nodes of a graph need, and stand for them. -/
structure FlagsExact (graph : Graph) (net : Net) : Prop where
  /-- A node has an invalidation flag if it announces changes. -/
  isSome_flag_iff : ∀ id, (net.node id).flag.isSome ↔ id < graph.size ∧ graph.Announces id
  /-- The invalidation flag of a node stands for it, and for nothing else does another one. -/
  flag_iff : ∀ id flag, (net.node id).flag = some flag ↔
    net.flags.purpose? flag = some (.invalidation id)
  /-- The flags of nodes come first. -/
  lt_allFlag_iff : ∀ flag, flag < net.allFlag ↔ ∃ id, (net.node id).flag = some flag
  /-- Then comes the one flag that invalidates everything. -/
  invalidateAll_iff : ∀ flag, net.flags.purpose? flag = some .invalidateAll ↔ flag = net.allFlag
  limit_eq : net.limit = net.allFlag + 1
  /-- A node has a pair of requirement flags if it is a conditional. -/
  isSome_requirementBase_iff : ∀ id, (net.node id).requirementBase.isSome ↔
    id < graph.size ∧ (graph.node id).kind.isConditional = true
  /-- The pairs follow in the order of the conditionals, and they are the last flags. -/
  drop_limit : net.flags.toList.drop net.limit =
    (graph.ids.filter fun id => (graph.node id).kind.isConditional).flatMap fun id =>
      (net.node id).requirementBase.toList.flatMap fun base =>
        [(base, .requirement id false), (base + 1, .requirement id true)]

theorem getElem?_toList {table : FlagTable} (k : Nat) :
    table.toList[k]? = (table.purpose? k).map (k, ·) := by
  simp [FlagTable.toList, FlagTable.purpose?, List.getElem?_zipIdx, Function.comp_def]

/-- The flags behind the limit are the pairs of the conditionals. -/
theorem drop_limit_flagTable (order : List Nat) :
    graph.flagTable.toList.drop graph.limit = graph.conditionals.flatMap fun id =>
      ((graph.bareNet order).node id).requirementBase.toList.flatMap fun base =>
        [(base, .requirement id false), (base + 1, .requirement id true)] := by
  let pair (id : Nat) (branch : Bool) : Nat × Purpose :=
    (graph.limit + 2 * (graph.conditionals.idxOf? id).getD 0 + branch.toNat, .requirement id branch)
  have hpairs : (graph.conditionals.flatMap fun id =>
      ((graph.bareNet order).node id).requirementBase.toList.flatMap fun base =>
        [(base, Purpose.requirement id false), (base + 1, .requirement id true)]) =
      graph.conditionals.flatMap fun id => [pair id false, pair id true] := by
    refine List.flatMap_congr fun id hid => ?_
    obtain ⟨position, hposition⟩ := Option.isSome_iff_exists.mp (List.isSome_idxOf?.mpr hid)
    simp [pair, requirementBase_bareNet, hposition]
  rw [hpairs]
  refine List.ext_getElem? fun k => ?_
  rw [List.getElem?_drop, getElem?_toList, purpose?_of_limit_le (Nat.le_add_right _ _),
    Nat.add_sub_cancel_left, getElem?_flatMap_pair, Option.map_map]
  refine Option.map_congr fun id hid => ?_
  have hposition := (idxOf?_eq_some_iff_of_nodup nodup_conditionals).mpr hid
  have hhalf : (k % 2 == 1).toNat = k % 2 := by
    rcases Nat.mod_two_eq_zero_or_one k with hmod | hmod <;> rw [hmod] <;> rfl
  simp only [pair, hposition, hhalf, Function.comp_apply, Option.getD_some, Prod.mk.injEq, and_true]
  omega

theorem Linked.flagsExact (hlinked : graph.Linked) (order : List Nat) :
    graph.FlagsExact (graph.bareNet order).withFlow := by
  have hflag (id flag : Nat) : ((graph.bareNet order).withFlow.node id).flag = some flag ↔
      graph.invalidated[flag]? = some id := by
    rw [Net.flag_withFlow, flag_bareNet hlinked, idxOf?_eq_some_iff_of_nodup nodup_invalidated]
  constructor
  · intro id
    rw [Net.flag_withFlow, flag_bareNet hlinked, List.isSome_idxOf?, hlinked.mem_invalidated]
  · intro id flag
    rw [hflag]
    exact purpose?_invalidation_iff.symm
  · intro flag
    simp only [hflag]
    rw [← Option.isSome_iff_exists, isSome_getElem?]
    rfl
  · exact fun flag => purpose?_invalidateAll_iff
  · rfl
  · intro id
    rw [Net.node_withFlow]
    show ((graph.bareNet order).node id).requirementBase.isSome ↔ _
    rw [requirementBase_bareNet, Option.isSome_map, List.isSome_idxOf?, mem_conditionals]
  · simp only [Net.node_withFlow]
    exact drop_limit_flagTable order

/-- The flags of a built graph that was just sealed are exact. -/
theorem flagsExact_of_freshlyBuilt (h : graph.FreshlyBuilt) :
    ∃ net, graph.sealed? = some ⟨net, .start net⟩ ∧ graph.FlagsExact net := by
  obtain ⟨net, hnet, hsealed⟩ := h.freshlySealed.exists_net?
  obtain ⟨order, -, rfl⟩ := net?_eq_ok hnet
  exact ⟨_, hsealed, h.built.linked.flagsExact order⟩

end Graph

/-- The built-in types and an observable class with one field, whose changes are announced. -/
def ClassRegistry.watched : ClassRegistry :=
  (builtin.extend [{ ClassDef.bare "x.U" with
    observable := true, fields := [⟨"name", "String", false, false, true⟩] }]).1

/-- A conditional over a plain variable, between an access and a literal. -/
def Layout.watched : Layout where
  classes := []
  imports := []
  variableDecls := [⟨"shown", "boolean"⟩, ⟨"u", "x.U"⟩]
  bindings := ["shown ? u.name : \"\""]

theorem flagsExact_watched : ∃ net,
    (Layout.watched.sealedGraph .watched).sealed? = some ⟨net, .start net⟩ ∧
      (Layout.watched.sealedGraph .watched).FlagsExact net :=
  Graph.flagsExact_of_freshlyBuilt (Layout.freshlyBuilt_sealedGraph (by decide +kernel))

end BindingPlan
