import BindingPlan.Decimal.Written
import BindingPlan.Text.Quoted

/-!
# What is wrong with a document

A JSON document is read from left to right and the first problem decides: the text is malformed, it
ends too early, or it is well-formed so far and does not fit the description that is read.
-/

namespace BindingPlan

/-- What stands where something else was expected. -/
inductive Found where
  | null
  | bool (value : Bool)
  | integer (value : Int)
  | float (negative : Bool) (value : Binary64)
  | text (value : String)
  | sequence
  | map
deriving DecidableEq, Repr

def Found.describe : Found → String
  | .null => "null"
  | .bool true => "boolean `true`"
  | .bool false => "boolean `false`"
  | .integer value => "integer `" ++ toString value ++ "`"
  | .float negative value =>
    "floating point `" ++ (if negative then "-" else "") ++ value.styledText .document ++ "`"
  | .text value => "string " ++ quoteText value
  | .sequence => "sequence"
  | .map => "map"

/-- How a value does not fit. -/
inductive Mismatch where
  | missingField (field : String)
  | duplicateField (field : String)
  | invalidType (found : Found) (expected : String)
  /-- A record that is written as a list has too few elements. -/
  | invalidLength (length : Nat) (record : String) (fields : Nat)
deriving DecidableEq, Repr

def Mismatch.message : Mismatch → String
  | .missingField field => "missing field `" ++ field ++ "`"
  | .duplicateField field => "duplicate field `" ++ field ++ "`"
  | .invalidType found expected => "invalid type: " ++ found.describe ++ ", expected " ++ expected
  | .invalidLength length record fields =>
    "invalid length " ++ toString length ++ ", expected " ++ record ++ " with " ++ toString fields
      ++ (if fields = 1 then " element" else " elements")

/-- The first problem of a document. -/
inductive JsonError where
  | malformed
  /-- The text ends inside a value. -/
  | truncated
  | mismatch (cause : Mismatch)
deriving DecidableEq, Repr

def JsonError.message : JsonError → String
  | .malformed => "malformed document"
  | .truncated => "the document ends inside a value"
  | .mismatch cause => cause.message

end BindingPlan
