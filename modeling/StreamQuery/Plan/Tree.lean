import StreamQuery.Condition
import StreamQuery.Operator.Aggregation
import StreamQuery.Window

/-!
# Query trees

A query is a tree of operators. Its leaves are sources, which pass on what arrives from outside; the
other operators read the output of one operator or, for a window join, of two.
-/

namespace StreamQuery

/-- What every operator has. -/
structure OperatorHeader where
  /-- The place of the operator in its query. -/
  id : Nat
  /-- The name of the operator, and of its output. -/
  name : String
  /-- The attributes of its results. -/
  schema : Schema
  deriving DecidableEq

/-- A relation that an operator reads. -/
structure RelationReference where
  /-- The place of the relation in the catalog. -/
  place : Nat
  /-- The name of the relation. -/
  name : String
  deriving DecidableEq

/-- What an operator with one input does with a tuple. -/
inductive SingleLogic where
  /-- Sends it on if it satisfies a condition. -/
  | select (condition : Condition)
  /-- Keeps the values at some positions. -/
  | project (indices : List Nat)
  /-- Joins it with each row of a relation that satisfies a condition. -/
  | combine (relation : RelationReference) (condition : Condition)
  /-- Computes results from windows. -/
  | aggregate (window : Window) (function : AggregateFunction)

/-- How a window join pairs its inputs. -/
structure JoinLogic where
  /-- The window of the left input. -/
  leftWindow : Window
  /-- The window of the right input. -/
  rightWindow : Window
  /-- The condition on pairs. -/
  condition : Condition

/-- An operator with all operators that it gets its input from. -/
inductive QueryTree where
  | source (header : OperatorHeader)
  | single (header : OperatorHeader) (logic : SingleLogic) (input : QueryTree)
  | join (header : OperatorHeader) (logic : JoinLogic) (left right : QueryTree)

namespace SingleLogic

/-- The name of what an operator does. -/
def kind : SingleLogic → String
  | select _ => "select"
  | project _ => "project"
  | combine _ _ => "combine"
  | aggregate _ (.mean _) => "mean"
  | aggregate _ .election => "elect"

/-- The window of an aggregation. -/
def window? : SingleLogic → Option Window
  | select _ => none
  | project _ => none
  | combine _ _ => none
  | aggregate window _ => some window

/-- The relation that an operator reads. -/
def relation? : SingleLogic → Option RelationReference
  | select _ => none
  | project _ => none
  | combine relation _ => some relation
  | aggregate _ _ => none

/-- Whether an operator aggregates windows. -/
def isAggregation (logic : SingleLogic) : Bool :=
  logic.window?.isSome

/-- Whether an operator reads a relation. -/
def readsRelation (logic : SingleLogic) : Bool :=
  logic.relation?.isSome

end SingleLogic

namespace QueryTree

/-- The header of the root. -/
def header : QueryTree → OperatorHeader
  | source header => header
  | single header _ _ => header
  | join header _ _ _ => header

/-- The place of the root in its query. -/
def id (tree : QueryTree) : Nat :=
  tree.header.id

/-- The name of the root. -/
def name (tree : QueryTree) : String :=
  tree.header.name

/-- The attributes of the results. -/
def schema (tree : QueryTree) : Schema :=
  tree.header.schema

/-- The name of what the root does. -/
def kind : QueryTree → String
  | source _ => "stream"
  | single _ logic _ => logic.kind
  | join _ _ _ _ => "join"

/-- The trees that the root reads, left before right. -/
def inputs : QueryTree → List QueryTree
  | source _ => []
  | single _ _ input => [input]
  | join _ _ left right => [left, right]

/-- The window of an aggregation. -/
def window? : QueryTree → Option Window
  | source _ => none
  | single _ logic _ => logic.window?
  | join _ _ _ _ => none

/-- The relation that the root reads. -/
def relation? : QueryTree → Option RelationReference
  | source _ => none
  | single _ logic _ => logic.relation?
  | join _ _ _ _ => none

/-- Whether the root aggregates windows. -/
def isAggregation (tree : QueryTree) : Bool :=
  tree.window?.isSome

/-- Whether the root reads a relation. -/
def readsRelation (tree : QueryTree) : Bool :=
  tree.relation?.isSome

/-- Whether the root buffers windows of its input. -/
def isWindowOperator : QueryTree → Bool
  | source _ => false
  | single _ logic _ => logic.isAggregation
  | join _ _ _ _ => true

/-- The subtrees in the order in which they are evaluated: inputs first, left before right. -/
def postOrder : QueryTree → List QueryTree
  | source header => [source header]
  | single header logic input => input.postOrder ++ [single header logic input]
  | join header logic left right =>
    left.postOrder ++ right.postOrder ++ [join header logic left right]

/-- Whether an operator belongs to the tree. -/
def contains (tree : QueryTree) (id : Nat) : Bool :=
  tree.postOrder.any (·.id = id)

/-- The number of operators in the tree that read relations. -/
def reads : QueryTree → Nat
  | source _ => 0
  | single _ logic input => input.reads + if logic.readsRelation then 1 else 0
  | join _ _ left right => left.reads + right.reads

end QueryTree

end StreamQuery
