import BindingPlan.Flag.Set

/-!
# The flag table

Flags are numbered in the order in which they are allocated. The table records what each flag
stands for: the invalidation of one node, the invalidation of everything, or the requirement that
the predicate of a conditional took one branch. Nodes are numbered in the order in which their graph
registers them.
-/

namespace BindingPlan

/-- What a flag stands for (`FlagPurpose`). -/
inductive Purpose where
  /-- The node has changed: a variable, an observable or a bindable field. -/
  | invalidation (node : Nat)
  /-- Everything has changed. -/
  | invalidateAll
  /-- The predicate of the conditional has taken the branch. -/
  | requirement (conditional : Nat) (branch : Bool)
deriving DecidableEq, Repr

/-- The purposes of the allocated flags, in flag order (`FlagAllocator`). -/
structure FlagTable where
  purposes : List Purpose
deriving DecidableEq, Repr

namespace FlagTable

def empty : FlagTable := ⟨[]⟩

instance : Inhabited FlagTable := ⟨empty⟩

/-- Number of allocated flags (`len`). -/
def size (table : FlagTable) : Nat :=
  table.purposes.length

/-- The next flag, for the purpose (`allocate`). -/
def allocate (table : FlagTable) (purpose : Purpose) : Nat × FlagTable :=
  (table.size, ⟨table.purposes ++ [purpose]⟩)

/-- The next two flags, for the branches of a conditional: false, then true
(`allocate_requirement_pair`). The first is the base of the pair. -/
def allocatePair (table : FlagTable) (conditional : Nat) : Nat × FlagTable :=
  let (base, table) := table.allocate (.requirement conditional false)
  (base, (table.allocate (.requirement conditional true)).2)

/-- What a flag stands for (`purpose`). -/
def purpose? (table : FlagTable) (flag : Nat) : Option Purpose :=
  table.purposes[flag]?

/-- The conditional and the branch of a requirement flag (`requirement`). -/
def requirement? (table : FlagTable) (flag : Nat) : Option (Nat × Bool) :=
  match table.purpose? flag with
  | some (.requirement conditional branch) => some (conditional, branch)
  | _ => none

/-- The flags with their purposes, in flag order (`iter`). -/
def toList (table : FlagTable) : List (Nat × Purpose) :=
  table.purposes.zipIdx.map fun (purpose, flag) => (flag, purpose)

end FlagTable

/-- The requirement flag of a branch in the pair with the given base (`requirement_flag`). -/
def requirementFlag (base : Nat) (branch : Bool) : Nat :=
  base + branch.toNat

end BindingPlan
