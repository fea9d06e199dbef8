import StreamQuery.Operator.Error

/-!
# Concurrency control errors

Why a schedule cannot be built or a wake-up fails.
-/

namespace StreamQuery

/-- Why a query cannot be scheduled, or why a wake-up failed. -/
inductive ControlError where
  /-- Only a mean can decide where transactions end. -/
  | unsupportedCommitOperator (operator kind : String)
  /-- There is nothing to schedule. -/
  | emptyPlan
  /-- No mode has this name. -/
  | unknownMode (name : String)
  /-- An operator failed when it was evaluated. -/
  | evaluation (operator : String) (error : OperatorError)
  deriving DecidableEq

/-- The message of a concurrency control error. -/
def ControlError.message : ControlError → String
  | unsupportedCommitOperator operator kind =>
    "unsupported commit operator " ++ operator ++ ": " ++ kind
  | emptyPlan => "empty plan: no operators"
  | unknownMode name => "unknown concurrency control mode: " ++ name
  | evaluation operator error => "operator " ++ operator ++ " failed: " ++ error.message

end StreamQuery
