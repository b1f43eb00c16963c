import BindingPlan.Class.TypeName

/-!
# Types and members

What the expression graph knows of a class and of a member that an access resolves to, and why a
look-up fails.
-/

namespace BindingPlan

/-- A class as the type of an expression (`ModelClass`). -/
structure ClassType where
  name : String
  /-- Instances announce changes of their bindable members. -/
  observable : Bool
  /-- Instances wrap one observable value, which is read through `get()`. -/
  observableField : Bool
deriving DecidableEq, Repr

/-- A type that announces nothing (`plain`). -/
def ClassType.plain (name : String) : ClassType :=
  ⟨name, false, false⟩

instance : Inhabited ClassType := ⟨.plain ""⟩

/-- Text concatenation applies to this type (`is_string`). -/
def ClassType.isString (type : ClassType) : Bool :=
  type.name == TypeName.string

inductive MemberKind where
  | field
  | method
deriving DecidableEq, Repr

/-- The field or method behind an access (`Callable`). -/
structure Member where
  name : String
  kind : MemberKind
  isStatic : Bool
  /-- The value can change although the receiver does not. -/
  isDynamic : Bool
  /-- Changes are announced to the listeners of the receiver. -/
  bindable : Bool
  type : ClassType
deriving DecidableEq, Repr

/-- Why a class or member cannot be found (`ResolveError`). -/
inductive ResolveError where
  | unknownClass (name : String)
  | unknownMember (owner name : String)
  | unknownMethod (owner name : String) (arity : Nat)
  /-- An identifier was never declared with a type. -/
  | untyped (name : String)
deriving DecidableEq, Repr

def ResolveError.message : ResolveError → String
  | .unknownClass name => "cannot find class `" ++ name ++ "`"
  | .unknownMember owner name => "cannot find `" ++ name ++ "` on `" ++ owner ++ "`"
  | .unknownMethod owner name arity =>
    "cannot find method `" ++ name ++ "` with " ++ toString arity ++ " argument(s) on `" ++ owner
      ++ "`"
  | .untyped name => "identifier `" ++ name ++ "` has no declared type"

end BindingPlan
