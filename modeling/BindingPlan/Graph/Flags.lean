import BindingPlan.Graph.Edges

/-!
# Flags of a classified graph

Sealing hands out the flags one after another. Dynamic nodes with an observable type come first.
Then come the variables that have no flag yet. Then the parents of the observable nodes are looked
through for dynamic accesses to bindable members, and those without a flag get one. The flag that
invalidates everything comes next. Behind it every conditional has a pair of requirement flags.

Main definitions:

* `FlagState`: the flags handed out so far.
* `Graph.assignFlags`: the flags of a graph.
-/

namespace BindingPlan

/-- The flags handed out so far: the table, and what the nodes have of it. -/
structure FlagState where
  table : FlagTable
  /-- The nodes that have an invalidation flag, the last one first. -/
  flags : List (Nat × Nat)
  /-- The conditionals that have a pair, with the first flag of it; the last one first. -/
  bases : List (Nat × Nat)
deriving DecidableEq, Repr

namespace FlagState

def empty : FlagState := ⟨.empty, [], []⟩

/-- The invalidation flag of a node. -/
def flag? (state : FlagState) (id : Nat) : Option Nat :=
  state.flags.lookup id

/-- The first flag of the pair of a conditional. -/
def base? (state : FlagState) (id : Nat) : Option Nat :=
  state.bases.lookup id

/-- The next flag becomes the invalidation flag of a node (`allocate_invalidation`). -/
def giveFlag (state : FlagState) (id : Nat) : FlagState :=
  let (flag, table) := state.table.allocate (.invalidation id)
  { state with table := table, flags := (id, flag) :: state.flags }

/-- The next two flags become the pair of a conditional: a step of the last loop of
`assign_flags`. -/
def givePair (state : FlagState) (id : Nat) : FlagState :=
  let (base, table) := state.table.allocatePair id
  { state with table := table, bases := (id, base) :: state.bases }

end FlagState

/-- The flags of a graph. -/
structure FlagAssignment where
  state : FlagState
  /-- The flag that invalidates everything. -/
  all : Nat
  /-- Flags below this one are set from outside. -/
  limit : Nat
deriving DecidableEq, Repr

namespace Graph

/-- A dynamic node whose type announces changes. -/
def isObservable (graph : Graph) (id : Nat) : Bool :=
  graph.isDynamic id && (graph.node id).resolvedType.any ClassType.observable

/-- A dynamic access to a member whose changes are announced (`bindable_field` of
`assign_flags`). -/
def isBindableField (graph : Graph) (id : Nat) : Bool :=
  let node := graph.node id
  node.kind.isField && node.isDynamic && node.member.any Member.bindable

def observables (graph : Graph) : List Nat :=
  graph.ids.filter graph.isObservable

def conditionals (graph : Graph) : List Nat :=
  graph.ids.filter fun id => (graph.node id).kind.isConditional

/-- The variables without a flag get one: the second loop of `assign_flags`. -/
def giveVariables (graph : Graph) (state : FlagState) : FlagState :=
  (graph.ids.filter fun id => (graph.node id).kind.isIdentifier && (state.flag? id).isNone).foldl
    FlagState.giveFlag state

/-- A node gets a flag if it has none and it is a dynamic access to a bindable member. -/
def giveField (graph : Graph) (state : FlagState) (id : Nat) : FlagState :=
  if (state.flag? id).isNone && graph.isBindableField id then state.giveFlag id else state

/-- The parents of the observable nodes are looked through for accesses to bindable members: the
third loop of `assign_flags`. -/
def giveFields (graph : Graph) (state : FlagState) : FlagState :=
  graph.observables.foldl
    (fun state observable => (graph.node observable).parents.foldl graph.giveField state) state

/-- The nodes get their invalidation flags: the first three loops of `assign_flags`. -/
def invalidationFlags (graph : Graph) : FlagState :=
  graph.giveFields (graph.giveVariables (graph.observables.foldl FlagState.giveFlag .empty))

/-- Hands out the flags of a classified graph (`assign_flags`). -/
def assignFlags (graph : Graph) : FlagAssignment :=
  let state := graph.invalidationFlags
  let (all, table) := state.table.allocate .invalidateAll
  let state := { state with table := table }
  ⟨graph.conditionals.foldl FlagState.givePair state, all, table.size⟩

end Graph
end BindingPlan
