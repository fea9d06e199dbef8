/-!
# Plan errors

Why declarations do not make a query.
-/

namespace StreamQuery

/-- Why declarations do not make a query. -/
inductive PlanError where
  /-- Two relations or operators have one name. -/
  | duplicateName (name : String)
  /-- No operator declared before has this name. -/
  | unknownOperator (name : String)
  /-- No relation has this name. -/
  | unknownRelation (name : String)
  /-- The input of an operator has no such attribute. -/
  | unknownAttribute (operator name : String)
  /-- A mean was asked for over values that are not numbers. -/
  | nonNumericAttribute (operator name : String)
  /-- The output of an operator has a consumer already. -/
  | alreadyConsumed (name : String)
  /-- There is no operator. -/
  | emptyPlan
  deriving DecidableEq

/-- The message of a plan error. -/
def PlanError.message : PlanError → String
  | duplicateName name => "duplicate name: " ++ name
  | unknownOperator name => "operator not found: " ++ name
  | unknownRelation name => "relation not found: " ++ name
  | unknownAttribute operator name => "operator " ++ operator ++ ": unknown attribute " ++ name
  | nonNumericAttribute operator name =>
    "operator " ++ operator ++ ": attribute " ++ name ++ " is not numeric"
  | alreadyConsumed name => "upstream " ++ name ++ " already has a consumer"
  | emptyPlan => "empty plan: no operators"

end StreamQuery
