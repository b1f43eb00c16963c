/-!
# Type names

Names of the types that every class registry knows, and the parts of a qualified name.
-/

namespace BindingPlan
namespace TypeName

def boolean : String := "boolean"
def byte : String := "byte"
def short : String := "short"
def char : String := "char"
def int : String := "int"
def long : String := "long"
def float : String := "float"
def double : String := "double"
def void : String := "void"
def string : String := "java.lang.String"
def object : String := "java.lang.Object"

/-- The types that are present without a declaration, in registry order. -/
def builtin : List String :=
  [boolean, byte, short, char, int, long, float, double, void, string, object]

/-- The name without its package and outer class (`simple_name`): what follows the last `.` or
`$`. -/
def simple (name : String) : String :=
  String.ofList (name.toList.reverse.takeWhile fun c => c != '.' && c != '$').reverse

/-- Rank in the order of numeric widening (`numeric_rank`); `none` for a type that is not
numeric. -/
def numericRank? (name : String) : Option Nat :=
  if name ∈ [byte, short, char, int] then some 0
  else if name = long then some 1
  else if name = float then some 2
  else if name = double then some 3
  else none

end TypeName
end BindingPlan
