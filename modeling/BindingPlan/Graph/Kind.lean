import BindingPlan.Operator

/-!
# Node kinds and keys

The kinds of nodes of an expression graph. The children of a node depend on its kind:

* a field access has its receiver,
* a method call has its target and then its arguments,
* an operator has its operands,
* a ternary has the predicate, the value if it holds, and the value if it does not.

The key of a node is a text made of its kind and the keys of its children. Keys decide identity:
two expressions with one key are one node.
-/

namespace BindingPlan

/-- What an expression is, apart from its operands (`ExprKind`). -/
inductive Kind where
  /-- A variable of the layout. -/
  | identifier (name : String)
  /-- A field access. It is marked as unwrapping when it reads an observable wrapper, whose value is
  then read in turn. -/
  | field (name : String) (unwrap : Bool)
  | call (name : String)
  | binary (op : BinaryOp)
  | unary (op : UnaryOp)
  | ternary
  /-- A class as the receiver of static members, under an imported name. -/
  | classRef (shortName qualified : String)
  /-- A literal, with its normal text and its type. -/
  | symbol (text typeName : String)
deriving DecidableEq, Repr

namespace Kind

/-- Kinds whose operands after the first are evaluated for one value of the first only
(`is_conditional`). -/
def isConditional : Kind → Bool
  | .ternary | .binary (.logical _) => true
  | _ => false

def isIdentifier : Kind → Bool
  | .identifier _ => true
  | _ => false

def isField : Kind → Bool
  | .field _ _ => true
  | _ => false

def isClassRef : Kind → Bool
  | .classRef _ _ => true
  | _ => false

/-- The key of a class reference (`static_key`). -/
def classKey (qualified : String) : String :=
  "static:" ++ qualified

/-- The key of a node over the keys of its children (`unique_key`); a missing child counts as the
empty text. -/
def key (kind : Kind) (children : List String) : String :=
  let child (i : Nat) : String := children.getD i ""
  match kind with
  | .identifier name => name
  | .field name unwrap => child 0 ++ (if unwrap then ".." else ".") ++ name
  | .call name => child 0 ++ "." ++ name ++ "(" ++ ", ".intercalate (children.drop 1) ++ ")"
  | .binary op => "(" ++ child 0 ++ " " ++ op.symbol ++ " " ++ child 1 ++ ")"
  | .unary op => op.symbol ++ child 0
  | .ternary => "(" ++ child 0 ++ " ? " ++ child 1 ++ " : " ++ child 2 ++ ")"
  | .classRef _ qualified => classKey qualified
  | .symbol text _ => text

end Kind
end BindingPlan
