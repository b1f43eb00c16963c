/-!
# Operators

The operators of binding expressions, with their spelling in source and in keys.
-/

namespace BindingPlan

inductive MathOp where
  | add | sub | mul | div | rem
deriving DecidableEq, Repr

inductive CompareOp where
  | eq | ne | lt | le | gt | ge
deriving DecidableEq, Repr

inductive LogicalOp where
  | and | or
deriving DecidableEq, Repr

inductive UnaryOp where
  | not | neg
deriving DecidableEq, Repr

def MathOp.symbol : MathOp → String
  | .add => "+"
  | .sub => "-"
  | .mul => "*"
  | .div => "/"
  | .rem => "%"

def CompareOp.symbol : CompareOp → String
  | .eq => "=="
  | .ne => "!="
  | .lt => "<"
  | .le => "<="
  | .gt => ">"
  | .ge => ">="

def LogicalOp.symbol : LogicalOp → String
  | .and => "&&"
  | .or => "||"

/-- The value of the left operand under which the right one is evaluated (`continues_on`). -/
def LogicalOp.continuesOn : LogicalOp → Bool
  | .and => true
  | .or => false

def UnaryOp.symbol : UnaryOp → String
  | .not => "!"
  | .neg => "-"

/-- The operators between two operands that have a node kind of their own (`BinaryOp`). -/
inductive BinaryOp where
  | math (op : MathOp)
  | compare (op : CompareOp)
  | logical (op : LogicalOp)
deriving DecidableEq, Repr

def BinaryOp.symbol : BinaryOp → String
  | .math op => op.symbol
  | .compare op => op.symbol
  | .logical op => op.symbol

end BindingPlan
