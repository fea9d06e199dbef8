import StreamQuery.Control.Error
import StreamQuery.Plan.Error
import StreamQuery.Schema

/-!
# Errors

Any failure of the library, with a message that says where it comes from.
-/

namespace StreamQuery

/-- A failure of any part of the library. -/
inductive Error where
  | operation (error : OperationError)
  | tuple (error : TupleError)
  | plan (error : PlanError)
  | operator (error : OperatorError)
  | control (error : ControlError)
  deriving DecidableEq

/-- The message of a failure. -/
def Error.message : Error → String
  | operation error => "Operation error: " ++ error.message
  | tuple error => "Tuple error: " ++ error.message
  | plan error => "Plan error: " ++ error.message
  | operator error => "Operator error: " ++ error.message
  | control error => "Concurrency control error: " ++ error.message

end StreamQuery
