import Mathlib.Data.List.Nodup
import BindingPlan.Graph.Flags
import BindingPlan.Proofs.Graph.Edges

/-!
# Flags of a classified graph

The flags that sealing hands out one after another, as a list that is read off the graph at once.
The nodes with an invalidation flag come in the order in which they are met; then follows the flag
that invalidates everything, and then the pairs of the conditionals.

Handing out keeps track of what a node has, and a node that already has a flag is passed over. So
the nodes with a flag are listed once, and the flag of a node is its position in the list.

Main definitions:

* `Graph.invalidated`, `Graph.flagTable`: the nodes with an invalidation flag, and all flags.
* `FlagState.Gives`, `FlagState.Pairs`: what was handed out so far.

Main results:

* `Graph.nodup_invalidated`: no node is listed twice.
* `Graph.requirement?_flagTable`: what the flags behind the limit stand for.
* `Graph.gives_giveField`, `Graph.gives_foldl_giveField`: what looking through parents hands out.
* `Graph.table_assignFlags`, `Graph.flag?_assignFlags`, `Graph.base?_assignFlags`: the flags that
  are handed out are those of the list.
-/

namespace BindingPlan

/-! ## Lists -/

/-- Pairs over a list are found by halving the position. -/
theorem getElem?_flatMap_pair {α : Type} (f : Nat → Bool → α) (list : List Nat) (k : Nat) :
    (list.flatMap fun i => [f i false, f i true])[k]? =
      list[k / 2]?.map fun i => f i (k % 2 == 1) := by
  induction list generalizing k with
  | nil => simp
  | cons i list ih =>
    rw [List.flatMap_cons]
    match k with
    | 0 => simp
    | 1 => simp
    | k + 2 =>
      rw [show (k + 2) / 2 = k / 2 + 1 by omega, show (k + 2) % 2 = k % 2 by omega]
      simpa using ih k

/-- In a list without repetitions an element is found where it is. -/
theorem idxOf?_eq_some_iff_of_nodup {list : List Nat} (h : list.Nodup) {i position : Nat} :
    list.idxOf? i = some position ↔ list[position]? = some i := by
  rw [List.idxOf?_eq_some_iff, List.getElem?_eq_some_iff]
  refine exists_congr fun hlt => and_iff_left_of_imp fun heq j hj hjc => ?_
  have := h.getElem_inj_iff.mp (hjc.trans heq.symm)
  omega

theorem nodup_eraseDups (list : List Nat) : list.eraseDups.Nodup := by
  match list with
  | [] => simp
  | i :: list =>
    rw [List.eraseDups_cons, List.nodup_cons, List.mem_eraseDups]
    exact ⟨by simp, nodup_eraseDups _⟩
termination_by list.length
decreasing_by exact Nat.lt_succ_of_le (List.length_filter_le _ _)

/-- Repetitions can be dropped before or after a choice of elements. -/
theorem eraseDups_filter (p : Nat → Bool) (list : List Nat) :
    (list.filter p).eraseDups = list.eraseDups.filter p := by
  match list with
  | [] => simp
  | i :: list =>
    have hrest := eraseDups_filter p (list.filter fun j => !j == i)
    rw [List.eraseDups_cons]
    by_cases hi : p i = true
    · rw [List.filter_cons_of_pos hi, List.filter_cons_of_pos hi, List.eraseDups_cons, ← hrest,
        List.filter_filter, List.filter_filter]
      simp only [Bool.and_comm]
    · rw [List.filter_cons_of_neg hi, List.filter_cons_of_neg hi, ← hrest, List.filter_filter]
      refine congrArg List.eraseDups (List.filter_congr fun j _ => ?_)
      by_cases hj : j = i
      · simp [hj, hi]
      · simp [hj]
termination_by list.length
decreasing_by exact Nat.lt_succ_of_le (List.length_filter_le _ _)

/-- A new element behind a list is found at the end, the others where they are. -/
theorem idxOf?_concat {list : List Nat} {i : Nat} (h : i ∉ list) (j : Nat) :
    (list ++ [i]).idxOf? j = if j == i then some list.length else list.idxOf? j := by
  unfold List.idxOf?
  rw [List.findIdx?_append]
  by_cases hj : j = i
  · subst hj
    have hnone : list.findIdx? (· == j) = none := List.idxOf?_eq_none_iff.mpr h
    simp [hnone]
  · have hne : ¬ i = j := fun heq => hj heq.symm
    simp [hj, hne]

namespace Graph

variable {graph : Graph} {id : Nat}

/-! ## The list of the flags -/

/-- The variables that are not observable. -/
def plainVariables (graph : Graph) : List Nat :=
  graph.ids.filter fun id => (graph.node id).kind.isIdentifier && !graph.isObservable id

/-- The accesses to bindable members of observable nodes, each once, in the order in which they are
met as parents. -/
def bindableFields (graph : Graph) : List Nat :=
  (graph.observables.flatMap fun id => (graph.node id).parents).eraseDups.filter fun id =>
    graph.isBindableField id && !graph.isObservable id

/-- The nodes with an invalidation flag, in flag order. -/
def invalidated (graph : Graph) : List Nat :=
  graph.observables ++ graph.plainVariables ++ graph.bindableFields

/-- The flag that invalidates everything. -/
def allFlag (graph : Graph) : Nat :=
  graph.invalidated.length

/-- Flags below this one are set from outside. -/
def limit (graph : Graph) : Nat :=
  graph.allFlag + 1

/-- All flags. -/
def flagTable (graph : Graph) : FlagTable :=
  ⟨graph.invalidated.map .invalidation ++ [.invalidateAll] ++
    graph.conditionals.flatMap fun id => [.requirement id false, .requirement id true]⟩

/-! ## Nodes with an invalidation flag -/

theorem isDynamic_of_isObservable (h : graph.isObservable id = true) :
    graph.isDynamic id = true :=
  (Bool.and_eq_true_iff.mp h).1

theorem isField_of_isBindableField (h : graph.isBindableField id = true) :
    (graph.node id).kind.isField = true ∧ graph.isDynamic id = true := by
  unfold isBindableField at h
  simp only [Bool.and_eq_true] at h
  exact h.1

theorem isIdentifier_of_isBindableField (h : graph.isBindableField id = true) :
    (graph.node id).kind.isIdentifier = false := by
  have hfield := (isField_of_isBindableField h).1
  cases hkind : (graph.node id).kind with
  | identifier name =>
    rw [hkind] at hfield
    cases hfield
  | field | classRef | symbol | call | binary | unary | ternary => rfl

theorem mem_observables : id ∈ graph.observables ↔ graph.isObservable id = true := by
  unfold observables ids
  rw [List.mem_filter, List.mem_range]
  exact and_iff_right_of_imp fun h => lt_size_of_isDynamic (isDynamic_of_isObservable h)

theorem mem_plainVariables : id ∈ graph.plainVariables ↔
    id < graph.size ∧ (graph.node id).kind.isIdentifier = true ∧ graph.isObservable id = false := by
  unfold plainVariables ids
  simp only [List.mem_filter, List.mem_range, Bool.and_eq_true, Bool.not_eq_true']

/-- No node is listed twice: each way to look for nodes leaves out what the ways before it found,
and an access is no variable. -/
theorem nodup_invalidated : graph.invalidated.Nodup := by
  have hobservables : graph.observables.Nodup := List.nodup_range.filter _
  have hvariables : graph.plainVariables.Nodup := List.nodup_range.filter _
  have hfields : graph.bindableFields.Nodup := (nodup_eraseDups _).filter _
  unfold invalidated
  refine List.nodup_append.mpr ⟨List.nodup_append.mpr ⟨hobservables, hvariables, ?_⟩, hfields, ?_⟩
  · rintro i hi j hj rfl
    exact absurd (mem_observables.mp hi) (Bool.eq_false_iff.mp (mem_plainVariables.mp hj).2.2)
  · rintro i hi j hj rfl
    have hj := (List.mem_filter.mp hj).2
    rw [Bool.and_eq_true, Bool.not_eq_true'] at hj
    obtain ⟨hfield, hplain⟩ := hj
    rcases List.mem_append.mp hi with hi | hi
    · exact absurd (mem_observables.mp hi) (Bool.eq_false_iff.mp hplain)
    · exact absurd (mem_plainVariables.mp hi).2.1
        (Bool.eq_false_iff.mp (isIdentifier_of_isBindableField hfield))

/-! ## Requirement flags -/

theorem nodup_conditionals : graph.conditionals.Nodup :=
  List.nodup_range.filter _

theorem mem_conditionals {i : Nat} :
    i ∈ graph.conditionals ↔ i < graph.size ∧ (graph.node i).kind.isConditional = true := by
  simp [conditionals, ids]

theorem mem_conditionals_of_predicate? {i p : Nat} (h : (graph.node i).predicate? = some p) :
    i ∈ graph.conditionals := by
  refine mem_conditionals.mpr ⟨lt_size_of_predicate? h, ?_⟩
  unfold Node.predicate? at h
  split_ifs at h with hkind
  exact hkind

theorem requirement?_eq_some {table : FlagTable} {flag c : Nat} {b : Bool} :
    table.requirement? flag = some (c, b) ↔ table.purposes[flag]? = some (.requirement c b) := by
  unfold FlagTable.requirement? FlagTable.purpose?
  cases table.purposes[flag]? with
  | none => simp
  | some purpose => cases purpose <;> simp

/-- A flag is the requirement of a branch if it is the one that the position of the conditional
gives it. -/
theorem requirement?_flagTable {flag c : Nat} {b : Bool} :
    graph.flagTable.requirement? flag = some (c, b) ↔
      ∃ position, graph.conditionals.idxOf? c = some position ∧
        graph.limit + 2 * position + b.toNat = flag := by
  set front := graph.invalidated.map Purpose.invalidation ++ [.invalidateAll] with hfront
  have hlength : front.length = graph.limit := by simp [hfront, limit, allFlag]
  rw [requirement?_eq_some]
  show (front ++ _)[flag]? = _ ↔ _
  by_cases hflag : flag < graph.limit
  · rw [List.getElem?_append_left (by omega)]
    constructor
    · intro h
      have hmem := List.mem_of_getElem? h
      simp [hfront] at hmem
    · rintro ⟨position, -, h⟩
      omega
  · rw [List.getElem?_append_right (by omega), getElem?_flatMap_pair Purpose.requirement, hlength]
    simp only [Option.map_eq_some_iff, Purpose.requirement.injEq,
      idxOf?_eq_some_iff_of_nodup nodup_conditionals]
    constructor
    · rintro ⟨c', hget, rfl, rfl⟩
      refine ⟨_, hget, ?_⟩
      rcases Nat.mod_two_eq_zero_or_one (flag - graph.limit) with hmod | hmod
      · simp [hmod]
        omega
      · simp [hmod]
        omega
    · rintro ⟨position, hget, rfl⟩
      refine ⟨c, ?_, rfl, ?_⟩
      · have := b.toNat_lt
        rw [show (graph.limit + 2 * position + b.toNat - graph.limit) / 2 = position by omega]
        exact hget
      · have := b.toNat_lt
        rw [show (graph.limit + 2 * position + b.toNat - graph.limit) % 2 = b.toNat by omega]
        cases b <;> rfl

theorem limit_le_size_flagTable : graph.limit ≤ graph.flagTable.size := by
  simp only [FlagTable.size, flagTable, limit, allFlag, List.length_append, List.length_map,
    List.length_cons, List.length_nil]
  omega

end Graph

/-! ## Handing out -/

namespace FlagState

/-- The listed nodes have an invalidation flag, in this order, and nothing else was handed out. -/
structure Gives (state : FlagState) (given : List Nat) : Prop where
  table_eq : state.table = ⟨given.map .invalidation⟩
  flag?_eq : ∀ id, state.flag? id = given.idxOf? id
  bases_eq : state.bases = []

/-- Behind the flags of a state, the listed conditionals have their pairs, in this order. -/
structure Pairs (before state : FlagState) (paired : List Nat) : Prop where
  table_eq : state.table = ⟨before.table.purposes ++
    paired.flatMap fun id => [.requirement id false, .requirement id true]⟩
  flags_eq : state.flags = before.flags
  base?_eq : ∀ id, state.base? id = (paired.idxOf? id).map (before.table.size + 2 * ·)

variable {state before : FlagState} {given paired : List Nat} {id : Nat}

theorem gives_empty : empty.Gives [] :=
  ⟨rfl, fun _ => rfl, rfl⟩

/-- One step: a node without a flag gets the next one. -/
theorem Gives.giveFlag (h : state.Gives given) (hid : id ∉ given) :
    (state.giveFlag id).Gives (given ++ [id]) where
  table_eq := by
    simp [FlagState.giveFlag, FlagTable.allocate, h.table_eq]
  flag?_eq := fun other => by
    have hother := h.flag?_eq other
    unfold flag? at hother ⊢
    rw [idxOf?_concat hid, ← hother]
    simp only [FlagState.giveFlag, FlagTable.allocate, FlagTable.size, h.table_eq, List.length_map,
      List.lookup_cons]
    cases other == id <;> rfl
  bases_eq := h.bases_eq

/-- A run: the nodes of a list get the next flags, if none of them has one. -/
theorem Gives.foldl_giveFlag {list : List Nat} (h : state.Gives given)
    (hlist : (given ++ list).Nodup) :
    (list.foldl FlagState.giveFlag state).Gives (given ++ list) := by
  induction list generalizing state given with
  | nil => simpa using h
  | cons id list ih =>
    have hid := (List.nodup_cons.mp (List.nodup_middle.mp hlist)).1
    rw [List.append_cons] at hlist ⊢
    exact ih (h.giveFlag fun hmem => hid (List.mem_append_left list hmem)) hlist

theorem Gives.isNone_flag? (h : state.Gives given) (id : Nat) :
    (state.flag? id).isNone = !given.contains id := by
  rw [h.flag?_eq, Bool.eq_iff_iff]
  simp [List.idxOf?_eq_none_iff]

theorem pairs_refl (hbases : before.bases = []) : before.Pairs before [] :=
  ⟨by simp, rfl, fun id => by simp [base?, hbases]⟩

/-- One step: a conditional without a pair gets the next one. -/
theorem Pairs.givePair (h : before.Pairs state paired) (hid : id ∉ paired) :
    before.Pairs (state.givePair id) (paired ++ [id]) where
  table_eq := by
    simp [FlagState.givePair, FlagTable.allocatePair, FlagTable.allocate, h.table_eq]
  flags_eq := h.flags_eq
  base?_eq := fun other => by
    have hsize : state.table.size = before.table.size + 2 * paired.length := by
      simp [FlagTable.size, h.table_eq, List.length_flatMap, Nat.mul_comm]
    have hother := h.base?_eq other
    unfold base? at hother ⊢
    rw [idxOf?_concat hid]
    simp only [FlagState.givePair, FlagTable.allocatePair, FlagTable.allocate, hsize,
      List.lookup_cons, hother]
    cases other == id <;> rfl

/-- A run: the conditionals of a list get the next pairs, if none of them has one. -/
theorem Pairs.foldl_givePair {list : List Nat} (h : before.Pairs state paired)
    (hlist : (paired ++ list).Nodup) :
    before.Pairs (list.foldl FlagState.givePair state) (paired ++ list) := by
  induction list generalizing state paired with
  | nil => simpa using h
  | cons id list ih =>
    have hid := (List.nodup_cons.mp (List.nodup_middle.mp hlist)).1
    rw [List.append_cons] at hlist ⊢
    exact ih (h.givePair fun hmem => hid (List.mem_append_left list hmem)) hlist

end FlagState

namespace Graph

open FlagState

variable {graph : Graph} {state : FlagState} {given : List Nat}

/-- The nodes of a list that get a flag when the list is looked through for accesses to bindable
members, while others have one already. -/
def fieldsAmong (graph : Graph) (given list : List Nat) : List Nat :=
  list.eraseDups.filter fun id => graph.isBindableField id && !given.contains id

/-- What is left to look through gets its flags in the same order, once the first node has one. -/
theorem append_fieldsAmong_cons (id : Nat) (list : List Nat) :
    given ++ graph.fieldsAmong given (id :: list) =
      if graph.isBindableField id && !given.contains id then
        (given ++ [id]) ++ graph.fieldsAmong (given ++ [id]) list
      else given ++ graph.fieldsAmong given list := by
  unfold fieldsAmong
  rw [List.eraseDups_cons, eraseDups_filter, List.filter_cons, List.filter_filter]
  split
  · rw [List.append_cons]
    refine congrArg _ (List.filter_congr fun j _ => ?_)
    by_cases hj : j = id
    · simp [hj]
    · simp [hj]
  · rename_i hfield
    refine congrArg _ (List.filter_congr fun j _ => ?_)
    by_cases hj : j = id
    · subst hj
      simpa using hfield
    · simp [hj]

/-- One step: a parent gets the next flag if it is an access to a bindable member and has none. -/
theorem gives_giveField (h : state.Gives given) (id : Nat) :
    (graph.giveField state id).Gives
      (if graph.isBindableField id && !given.contains id then given ++ [id] else given) := by
  unfold giveField
  rw [h.isNone_flag?, Bool.and_comm]
  split
  · rename_i hfield
    exact h.giveFlag (by simpa using (Bool.and_eq_true_iff.mp hfield).2)
  · exact h

/-- A run: a parent that is met again has its flag. -/
theorem gives_foldl_giveField (h : state.Gives given) (list : List Nat) :
    (list.foldl graph.giveField state).Gives (given ++ graph.fieldsAmong given list) := by
  induction list generalizing state given with
  | nil => simpa [fieldsAmong] using h
  | cons id list ih =>
    have hstep : (graph.giveField state id).Gives _ := gives_giveField h id
    have hrest := ih hstep
    rw [append_fieldsAmong_cons]
    split
    · rename_i hfield
      rwa [if_pos hfield] at hrest
    · rename_i hfield
      rwa [if_neg hfield] at hrest

theorem contains_observables (id : Nat) :
    graph.observables.contains id = graph.isObservable id := by
  rw [Bool.eq_iff_iff, List.contains_iff_mem, mem_observables]

theorem gives_observables :
    (graph.observables.foldl FlagState.giveFlag .empty).Gives graph.observables :=
  gives_empty.foldl_giveFlag (List.nodup_range.filter _)

/-- The variables that are not observable are the ones without a flag. -/
theorem gives_plainVariables (h : state.Gives graph.observables) :
    (graph.giveVariables state).Gives (graph.observables ++ graph.plainVariables) := by
  have hvariables : (graph.ids.filter fun id =>
      (graph.node id).kind.isIdentifier && (state.flag? id).isNone) = graph.plainVariables := by
    refine List.filter_congr fun id _ => ?_
    rw [h.isNone_flag?, contains_observables]
  unfold giveVariables
  rw [hvariables]
  exact h.foldl_giveFlag (List.nodup_append.mp nodup_invalidated).1

/-- An access is no variable, so the accesses without a flag are those that are not observable. -/
theorem gives_bindableFields (h : state.Gives (graph.observables ++ graph.plainVariables)) :
    (graph.giveFields state).Gives graph.invalidated := by
  have hfields : graph.fieldsAmong (graph.observables ++ graph.plainVariables)
      (graph.observables.flatMap fun id => (graph.node id).parents) = graph.bindableFields := by
    refine List.filter_congr fun id _ => ?_
    cases hfield : graph.isBindableField id with
    | false => rfl
    | true =>
      have hvariable : id ∉ graph.plainVariables := by
        rw [mem_plainVariables, isIdentifier_of_isBindableField hfield]
        simp
      rw [← contains_observables]
      simp [hvariable]
  unfold giveFields invalidated
  rw [← List.foldl_flatMap, ← hfields]
  exact gives_foldl_giveField h _

theorem gives_invalidated : graph.invalidationFlags.Gives graph.invalidated :=
  gives_bindableFields (gives_plainVariables gives_observables)

/-! ## The flags of a graph -/

/-- The flag that invalidates everything follows those of the nodes. -/
theorem all_assignFlags : graph.assignFlags.all = graph.allFlag := by
  show graph.invalidationFlags.table.size = _
  rw [gives_invalidated.table_eq]
  simp [FlagTable.size, allFlag]

theorem limit_assignFlags : graph.assignFlags.limit = graph.limit := by
  show (graph.invalidationFlags.table.allocate .invalidateAll).2.size = _
  rw [gives_invalidated.table_eq]
  simp [FlagTable.size, FlagTable.allocate, limit, allFlag]

/-- The conditionals get their pairs behind all other flags. -/
theorem pairs_conditionals :
    FlagState.Pairs { graph.invalidationFlags with
      table := (graph.invalidationFlags.table.allocate .invalidateAll).2 }
      graph.assignFlags.state graph.conditionals := by
  have hbefore : FlagState.bases { graph.invalidationFlags with
      table := (graph.invalidationFlags.table.allocate .invalidateAll).2 } = [] :=
    gives_invalidated.bases_eq
  exact (pairs_refl hbefore).foldl_givePair nodup_conditionals

/-- The flags that are handed out are those of the list, in its order. -/
theorem table_assignFlags : graph.assignFlags.state.table = graph.flagTable := by
  rw [pairs_conditionals.table_eq, gives_invalidated.table_eq]
  rfl

/-- The flag of a node is its place in the list. -/
theorem flag?_assignFlags (id : Nat) :
    graph.assignFlags.state.flag? id = graph.invalidated.idxOf? id := by
  rw [← gives_invalidated.flag?_eq]
  unfold flag?
  rw [pairs_conditionals.flags_eq]

/-- The pair of a conditional is behind the limit, at the place of the conditional. -/
theorem base?_assignFlags (id : Nat) : graph.assignFlags.state.base? id =
    (graph.conditionals.idxOf? id).map (graph.limit + 2 * ·) := by
  rw [pairs_conditionals.base?_eq, gives_invalidated.table_eq]
  simp [FlagTable.size, FlagTable.allocate, limit, allFlag]

end Graph
end BindingPlan
