import BindingPlan.Class.TypeName
import BindingPlan.Operator
import BindingPlan.Text.Quoted
import BindingPlan.Text.Span
import BindingPlan.Token

/-!
# Expression trees

The tree of one binding expression, with the span of every construct. Trees are as written: equal
parts are not shared, names are not resolved, and parentheses are kept as groups.

Main definitions:

* `Tree.render`: the tree as text, fully parenthesised, groups and spacing forgotten.
-/

namespace BindingPlan

/-- A name and where it stands (`Ident`). -/
structure Name where
  text : String
  span : Span
deriving DecidableEq, Repr

/-- The value of a literal (`Literal`). -/
inductive Literal where
  | null
  | bool (value : Bool)
  | int (value : Nat)
  | float (value : Binary64)
  | text (value : String)
  | char (value : Char)
deriving DecidableEq, Repr

/-- A binding expression (`Expr` and its `ExprKind`). The span of each construct is its first
field. -/
inductive Tree where
  | literal (span : Span) (value : Literal)
  | ident (span : Span) (name : String)
  /-- The member `receiver.name`. -/
  | field (span : Span) (receiver : Tree) (name : Name)
  /-- The call `target.name(args)`. -/
  | call (span : Span) (target : Tree) (name : Name) (args : List Tree)
  | unary (span : Span) (op : UnaryOp) (operand : Tree)
  | binary (span : Span) (op : BinaryOp) (lhs rhs : Tree)
  /-- The choice `predicate ? ifTrue : ifFalse`. -/
  | ternary (span : Span) (predicate ifTrue ifFalse : Tree)
  /-- The default `lhs ?? rhs`. -/
  | coalesce (span : Span) (lhs rhs : Tree)
  /-- An expression in parentheses. -/
  | group (span : Span) (inner : Tree)
deriving Repr

instance : Inhabited Tree := ⟨.ident default ""⟩

def Tree.span : Tree → Span
  | .literal span _ | .ident span _ | .field span _ _ | .call span _ _ _ | .unary span _ _
  | .binary span _ _ _ | .ternary span _ _ _ | .coalesce span _ _ | .group span _ => span

/-- The normal text of a literal (`text`), so that a text in double quotes and the same text in back
quotes are one literal. -/
def Literal.render : Literal → String
  | .null => "null"
  | .bool true => "true"
  | .bool false => "false"
  | .int value => toString value
  | .float value => value.styledText .literal
  | .text value => quoteText value
  | .char value => quoteChar value

/-- The type of a literal (`type_name`). -/
def Literal.typeName : Literal → String
  | .null => TypeName.object
  | .bool _ => TypeName.boolean
  | .int _ => TypeName.int
  | .float _ => TypeName.double
  | .text _ => TypeName.string
  | .char _ => TypeName.char

mutual

/-- The text of a tree (`fmt`): every operator between two operands in parentheses, no others. -/
def Tree.render : Tree → String
  | .literal _ value => value.render
  | .ident _ name => name
  | .field _ receiver name => receiver.render ++ "." ++ name.text
  | .call _ target name args =>
    target.render ++ "." ++ name.text ++ "(" ++ ", ".intercalate (Tree.renderAll args) ++ ")"
  | .unary _ op operand => op.symbol ++ operand.render
  | .binary _ op lhs rhs => "(" ++ lhs.render ++ " " ++ op.symbol ++ " " ++ rhs.render ++ ")"
  | .ternary _ predicate ifTrue ifFalse =>
    "(" ++ predicate.render ++ " ? " ++ ifTrue.render ++ " : " ++ ifFalse.render ++ ")"
  | .coalesce _ lhs rhs => "(" ++ lhs.render ++ " ?? " ++ rhs.render ++ ")"
  | .group _ inner => inner.render

def Tree.renderAll : List Tree → List String
  | [] => []
  | tree :: trees => tree.render :: Tree.renderAll trees

end

end BindingPlan
