import StreamQuery.Operator.Error
import StreamQuery.Tuple

/-!
# Conditions

A condition compares attributes with constants or with each other. Where a name is looked up depends
on what the condition is asked about: a single tuple, or a pair whose right member is a relation row
or comes from the right input of a join. `Scope` holds the three lookups, so that evaluation and the
search for unknown names follow the same rule.
-/

namespace StreamQuery

/-- A predicate on one tuple or on a pair of tuples. -/
inductive Condition where
  | always
  /-- An attribute compared with a constant. -/
  | constant (name : String) (comparator : Comparator) (value : Value)
  /-- Two attributes compared with each other. -/
  | attributes (left : String) (comparator : Comparator) (right : String)
  | and (first second : Condition)
  | or (first second : Condition)

/-- Where a condition finds its attributes. -/
structure Scope (α : Type) where
  /-- The attribute that is compared with a constant. -/
  operand : String → Option α
  /-- The left one of two attributes. -/
  left : String → Option α
  /-- The right one of two attributes. -/
  right : String → Option α

namespace Scope

variable {α : Type}

/-- All attributes come from one place. -/
def single (find : String → Option α) : Scope α where
  operand := find
  left := find
  right := find

/-- The left and the right attribute come from two places; one that is compared with a constant
comes from the left place if it is there. -/
def pair (findLeft findRight : String → Option α) : Scope α where
  operand name := (findLeft name).or (findRight name)
  left := findLeft
  right := findRight

end Scope

namespace Condition

/-- The value that a name stands for. -/
def resolve (find : String → Option Value) (name : String) : Except OperatorError Value :=
  match find name with
  | some value => .ok value
  | none => .error (.unknownAttribute name)

/-- A comparison of two values as part of a condition. -/
def compareValues (comparator : Comparator) (left right : Value) : Except OperatorError Bool :=
  (Value.compare comparator left right).mapError .operation

/-- Evaluates a condition. The left side is looked up before the right one, and the second part of a
conjunction or disjunction is evaluated only if the first part leaves the result open. -/
def holds (scope : Scope Value) : Condition → Except OperatorError Bool
  | always => .ok true
  | constant name comparator value => do
    let operand ← resolve scope.operand name
    compareValues comparator operand value
  | attributes left comparator right => do
    let leftValue ← resolve scope.left left
    let rightValue ← resolve scope.right right
    compareValues comparator leftValue rightValue
  | and first second => do
    if ← first.holds scope then second.holds scope else return false
  | or first second => do
    if ← first.holds scope then return true else second.holds scope

/-- Whether a tuple satisfies a condition. -/
def check (condition : Condition) (tuple : Tuple) : Except OperatorError Bool :=
  condition.holds (.single tuple.get?)

/-- Whether a pair of tuples satisfies a condition. -/
def checkPair (condition : Condition) (left right : Tuple) : Except OperatorError Bool :=
  condition.holds (.pair left.get? right.get?)

/-- A name that cannot be found in a place. -/
def missing? {α : Type} (find : String → Option α) (name : String) : Option String :=
  if (find name).isSome then none else some name

/-- The first name of a condition that cannot be found. -/
def unresolved? {α : Type} (scope : Scope α) : Condition → Option String
  | always => none
  | constant name _ _ => missing? scope.operand name
  | attributes left _ right => (missing? scope.left left).or (missing? scope.right right)
  | and first second => (first.unresolved? scope).or (second.unresolved? scope)
  | or first second => (first.unresolved? scope).or (second.unresolved? scope)

/-- The first name of a condition on tuples of a schema that is not in the schema. -/
def unresolvedIn? (condition : Condition) (schema : Schema) : Option String :=
  condition.unresolved? (.single schema.indexOf?)

/-- The first name of a condition on pairs of tuples that is not in the schemas. -/
def unresolvedInPair? (condition : Condition) (left right : Schema) : Option String :=
  condition.unresolved? (.pair left.indexOf? right.indexOf?)

/-- The text of a condition. -/
def render : Condition → String
  | always => "true"
  | constant name comparator value => name ++ " " ++ comparator.symbol ++ " " ++ value.render
  | attributes left comparator right => left ++ " " ++ comparator.symbol ++ " " ++ right
  | and first second => "(" ++ first.render ++ " && " ++ second.render ++ ")"
  | or first second => "(" ++ first.render ++ " || " ++ second.render ++ ")"

end Condition

end StreamQuery
