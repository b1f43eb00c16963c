import BindingPlan.Graph.Resolve
import BindingPlan.Proofs.Class.Registry
import BindingPlan.Proofs.Key.Spelled

/-!
# What expressions mean

The meaning of an expression is its type, and whether it refers to a class or is the literal `null`;
an expression without a type has no meaning. It follows from the meanings of the parts, whatever
graph the expression is registered in.

Main definitions:

* `Kind.type?`: the type of an expression over the meanings of its parts.
-/

namespace BindingPlan

structure Meaning where
  type : ClassType
  /-- It refers to a class, so that only static members count. -/
  isClass : Bool
  isNull : Bool
deriving DecidableEq, Repr

namespace Kind

def isNull : Kind → Bool
  | .symbol text _ => text == "null"
  | _ => false

/-- The meaning of an expression of the kind that has a type. -/
def meaning (kind : Kind) (type : ClassType) : Meaning :=
  ⟨type, kind.isClassRef, kind.isNull⟩

end Kind

/-- The type of an access to a member. A member that holds an observable wrapper is read through. -/
def ClassRegistry.accessType? (classes : ClassRegistry) (receiver : Meaning) (name : String) :
    Option ClassType := do
  let member ← (classes.findMember receiver.type name receiver.isClass).toOption
  if member.type.observableField then
    (classes.findMember member.type "get" false).toOption.map Member.type
  else some member.type

/-- The meaning of the part at a position. -/
def partAt? (parts : List (Option Meaning)) (position : Nat) : Option Meaning :=
  parts[position]?.join

/-- The type of an expression over the meanings of its parts; those of variables are declared. -/
def Kind.type? (classes : ClassRegistry) (parts : List (Option Meaning)) :
    Kind → Option ClassType
  | .identifier _ => none
  | .classRef _ qualified => (classes.findClass qualified).toOption
  | .symbol _ type => (classes.findClass type).toOption
  | .field name _ => do classes.accessType? (← partAt? parts 0) name
  | .call name => do
    let target ← partAt? parts 0
    let args ← (parts.drop 1).mapM id
    let member ← (classes.findMethod target.type name (args.map Meaning.type)
      target.isClass).toOption
    return member.type
  | .binary (.math op) => do
    let lhs ← partAt? parts 0
    let rhs ← partAt? parts 1
    return GraphM.mathType op lhs.type rhs.type
  | .binary (.compare _) | .binary (.logical _) | .unary .not => do
    let _ ← parts.mapM id
    return .plain TypeName.boolean
  | .unary .neg => do return (← partAt? parts 0).type
  | .ternary => do
    let _ ← partAt? parts 0
    let whenTrue ← partAt? parts 1
    let whenFalse ← partAt? parts 2
    return if whenTrue.isNull then whenFalse.type else whenTrue.type

variable {classes : ClassRegistry} {parts : List (Option Meaning)}

theorem partAt?_eq_some_iff {position : Nat} {meaning : Meaning} :
    partAt? parts position = some meaning ↔ parts[position]? = some (some meaning) := by
  unfold partAt?
  exact Option.join_eq_some_iff

theorem exists_of_mapM_id {meanings : List Meaning} (h : parts.mapM id = some meanings) :
    parts = meanings.map some := by
  induction parts generalizing meanings with
  | nil =>
    rw [List.mapM_nil] at h
    cases h
    rfl
  | cons part parts ih =>
    rw [List.mapM_cons] at h
    cases part with
    | none => cases h
    | some meaning =>
      cases hrest : parts.mapM id with
      | none =>
        rw [hrest] at h
        cases h
      | some rest =>
        rw [hrest] at h
        cases h
        rw [ih hrest]
        rfl

theorem toOption_eq_some_iff {ε α : Type} {x : Except ε α} {a : α} :
    x.toOption = some a ↔ x = .ok a := by
  cases x <;> simp [Except.toOption]

/-- An expression that has a type has parts with meanings only. -/
theorem Kind.exists_of_type? {kind : Kind} {type : ClassType} (hparts : kind.Composes parts.length)
    (h : kind.type? classes parts = some type) :
    ∀ part ∈ parts, ∃ meaning, part = some meaning := by
  have hall {meanings : List Meaning} (h : parts.mapM id = some meanings) :
      ∀ part ∈ parts, ∃ meaning, part = some meaning := by
    intro part hpart
    rw [exists_of_mapM_id h] at hpart
    obtain ⟨meaning, -, rfl⟩ := List.mem_map.mp hpart
    exact ⟨meaning, rfl⟩
  -- a part stands at one of the positions that are read
  have hat {part : Option Meaning} (hpart : part ∈ parts) {n : Nat} (hn : parts.length = n)
      (hread : ∀ position < n, ∃ meaning, partAt? parts position = some meaning) :
      ∃ meaning, part = some meaning := by
    obtain ⟨position, hposition⟩ := List.getElem?_of_mem hpart
    obtain ⟨meaning, hmeaning⟩ := hread position (hn ▸ (List.getElem?_eq_some_iff.mp hposition).1)
    rw [partAt?_eq_some_iff, hposition] at hmeaning
    exact ⟨meaning, Option.some.inj hmeaning⟩
  generalize hn : parts.length = n at hparts
  cases hparts with
  | field =>
    obtain ⟨receiver, hreceiver, -⟩ := Option.bind_eq_some_iff.mp h
    refine fun part hpart => hat hpart hn fun position hposition => ?_
    obtain rfl : position = 0 := by omega
    exact ⟨receiver, hreceiver⟩
  | call =>
    obtain ⟨target, htarget, h⟩ := Option.bind_eq_some_iff.mp h
    obtain ⟨args, hargs, -⟩ := Option.bind_eq_some_iff.mp h
    intro part hpart
    cases parts with
    | nil => cases hpart
    | cons first rest =>
      rcases List.mem_cons.mp hpart with rfl | hpart
      · exact ⟨target, Option.some.inj (partAt?_eq_some_iff.mp htarget)⟩
      · rw [List.drop_one, List.tail_cons] at hargs
        rw [exists_of_mapM_id hargs] at hpart
        obtain ⟨meaning, -, rfl⟩ := List.mem_map.mp hpart
        exact ⟨meaning, rfl⟩
  | binary op =>
    cases op with
    | math op =>
      obtain ⟨lhs, hlhs, h⟩ := Option.bind_eq_some_iff.mp h
      obtain ⟨rhs, hrhs, -⟩ := Option.bind_eq_some_iff.mp h
      refine fun part hpart => hat hpart hn fun position hposition => ?_
      obtain rfl | rfl : position = 0 ∨ position = 1 := by omega
      · exact ⟨lhs, hlhs⟩
      · exact ⟨rhs, hrhs⟩
    | compare | logical =>
      obtain ⟨_, hmeanings, -⟩ := Option.bind_eq_some_iff.mp h
      exact hall hmeanings
  | unary op =>
    cases op with
    | not =>
      obtain ⟨_, hmeanings, -⟩ := Option.bind_eq_some_iff.mp h
      exact hall hmeanings
    | neg =>
      obtain ⟨operand, hoperand, -⟩ := Option.bind_eq_some_iff.mp h
      refine fun part hpart => hat hpart hn fun position hposition => ?_
      obtain rfl : position = 0 := by omega
      exact ⟨operand, hoperand⟩
  | ternary =>
    obtain ⟨predicate, hpredicate, h⟩ := Option.bind_eq_some_iff.mp h
    obtain ⟨whenTrue, htrue, h⟩ := Option.bind_eq_some_iff.mp h
    obtain ⟨whenFalse, hfalse, -⟩ := Option.bind_eq_some_iff.mp h
    refine fun part hpart => hat hpart hn fun position hposition => ?_
    obtain rfl | rfl | rfl : position = 0 ∨ position = 1 ∨ position = 2 := by omega
    · exact ⟨predicate, hpredicate⟩
    · exact ⟨whenTrue, htrue⟩
    · exact ⟨whenFalse, hfalse⟩

/-! ## Types by their names -/

theorem ClassRegistry.accessType?_of_plain {receiver : Meaning} {name : String} {member : Member}
    (hmember : classes.findMember receiver.type name receiver.isClass = .ok member)
    (hplain : ¬ member.type.observableField = true) :
    classes.accessType? receiver name = some member.type := by
  unfold accessType?
  rw [hmember]
  exact if_neg hplain

theorem ClassRegistry.accessType?_of_wrapper {receiver : Meaning} {name : String}
    {member value : Member}
    (hmember : classes.findMember receiver.type name receiver.isClass = .ok member)
    (hwrapper : member.type.observableField = true)
    (hvalue : classes.findMember member.type "get" false = .ok value) :
    classes.accessType? receiver name = some value.type := by
  unfold accessType?
  rw [hmember]
  refine (if_pos hwrapper).trans ?_
  rw [hvalue]
  rfl

/-- Types of members are found by their names. -/
theorem ClassRegistry.findClass_of_accessType? {receiver : Meaning} {name : String}
    {type : ClassType} (h : classes.accessType? receiver name = some type) :
    classes.findClass type.name = .ok type := by
  unfold accessType? at h
  obtain ⟨member, hmember, h⟩ := Option.bind_eq_some_iff.mp h
  split at h
  · obtain ⟨value, hvalue, rfl⟩ := Option.map_eq_some_iff.mp h
    obtain ⟨_, hfound⟩ := exists_of_findMember (toOption_eq_some_iff.mp hvalue)
    exact findClass_name hfound
  · cases h
    obtain ⟨_, hfound⟩ := exists_of_findMember (toOption_eq_some_iff.mp hmember)
    exact findClass_name hfound

theorem findClass_mathType (hbuiltin : classes.HasBuiltin) {op : MathOp} {lhs rhs : ClassType}
    (hlhs : classes.findClass lhs.name = .ok lhs) (hrhs : classes.findClass rhs.name = .ok rhs) :
    classes.findClass (GraphM.mathType op lhs rhs).name = .ok (GraphM.mathType op lhs rhs) := by
  unfold GraphM.mathType
  split
  · exact hbuiltin.findClass (by decide)
  · split
    · split
      · exact hbuiltin.findClass (by decide)
      · split
        · exact hrhs
        · exact hlhs
    · exact hlhs

/-- The type of an expression is found by its name if the types of the parts are. -/
theorem Kind.findClass_of_type? (hbuiltin : classes.HasBuiltin)
    (hparts : ∀ meaning, some meaning ∈ parts →
      classes.findClass meaning.type.name = .ok meaning.type)
    {kind : Kind} {type : ClassType} (h : kind.type? classes parts = some type) :
    classes.findClass type.name = .ok type := by
  have hpart {position : Nat} {meaning : Meaning} (h : partAt? parts position = some meaning) :
      classes.findClass meaning.type.name = .ok meaning.type :=
    hparts meaning (List.mem_of_getElem? (partAt?_eq_some_iff.mp h))
  have hall (h : (do let _ ← parts.mapM id; return ClassType.plain TypeName.boolean) = some type) :
      classes.findClass type.name = .ok type := by
    obtain ⟨_, -, hboolean⟩ := Option.bind_eq_some_iff.mp h
    cases hboolean
    exact hbuiltin.findClass (by decide)
  cases kind with
  | identifier name => cases h
  | classRef shortName qualified => exact ClassRegistry.findClass_name (toOption_eq_some_iff.mp h)
  | symbol text name => exact ClassRegistry.findClass_name (toOption_eq_some_iff.mp h)
  | field name unwrap =>
    obtain ⟨receiver, -, h⟩ := Option.bind_eq_some_iff.mp h
    exact ClassRegistry.findClass_of_accessType? h
  | call name =>
    obtain ⟨target, -, h⟩ := Option.bind_eq_some_iff.mp h
    obtain ⟨args, -, h⟩ := Option.bind_eq_some_iff.mp h
    obtain ⟨member, hmember, h⟩ := Option.bind_eq_some_iff.mp h
    cases h
    obtain ⟨_, hfound⟩ := ClassRegistry.exists_of_findMethod (toOption_eq_some_iff.mp hmember)
    exact ClassRegistry.findClass_name hfound
  | binary op =>
    cases op with
    | math op =>
      obtain ⟨lhs, hlhs, h⟩ := Option.bind_eq_some_iff.mp h
      obtain ⟨rhs, hrhs, h⟩ := Option.bind_eq_some_iff.mp h
      cases h
      exact findClass_mathType hbuiltin (hpart hlhs) (hpart hrhs)
    | compare op => exact hall h
    | logical op => exact hall h
  | unary op =>
    cases op with
    | not => exact hall h
    | neg =>
      obtain ⟨operand, hoperand, h⟩ := Option.bind_eq_some_iff.mp h
      cases h
      exact hpart hoperand
  | ternary =>
    obtain ⟨predicate, -, h⟩ := Option.bind_eq_some_iff.mp h
    obtain ⟨whenTrue, htrue, h⟩ := Option.bind_eq_some_iff.mp h
    obtain ⟨whenFalse, hfalse, h⟩ := Option.bind_eq_some_iff.mp h
    cases h
    split
    · exact hpart hfalse
    · exact hpart htrue

end BindingPlan
