import StreamQuery.Value

/-!
# Operator errors

Why an operator fails on a tuple.
-/

namespace StreamQuery

/-- Why an operator cannot process its input. -/
inductive OperatorError where
  /-- An operation on values has no result. -/
  | operation (error : OperationError)
  /-- A tuple has no such attribute. -/
  | unknownAttribute (name : String)
  /-- A window without tuples has no newest one. -/
  | emptyWindow
  /-- The relation that the operator reads does not exist. -/
  | missingRelation (operator : String)
  /-- What the operator remembers belongs to another kind of operator. -/
  | invalidShape (operator : String)
  deriving DecidableEq

namespace OperatorError

/-- The error of a tuple that has no attribute at a position. -/
def unknownPosition (index : Nat) : OperatorError :=
  unknownAttribute ("#" ++ toString index)

/-- The message of an operator error. -/
def message : OperatorError → String
  | operation error => "operation failed: " ++ error.message
  | unknownAttribute name => "unknown attribute: " ++ name
  | emptyWindow => "empty window"
  | missingRelation operator => "operator " ++ operator ++ " references no relation"
  | invalidShape operator => "operator " ++ operator ++ " has an invalid shape"

end OperatorError

end StreamQuery
