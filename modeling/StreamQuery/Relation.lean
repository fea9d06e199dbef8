import StreamQuery.Tuple

/-!
# Relations

A relation is a table that changes while queries read it. Its version counts the updates, and its
lock says who keeps others from reading or changing it.
-/

namespace StreamQuery

/-- The rows of a relation at one moment, with the version of that moment. -/
structure Snapshot where
  /-- The rows. -/
  rows : List Tuple
  /-- Their version. -/
  version : Nat

/-- Who holds the lock of a relation. -/
inductive LockHolder where
  /-- A transaction of a query that has read the relation. -/
  | transaction
  /-- Someone outside the query. -/
  | outsider
  deriving DecidableEq

/-- A named table with a version and a lock. -/
structure Relation where
  /-- The identity that version stamps refer to. -/
  id : RelationId
  /-- The name that declarations refer to. -/
  name : String
  /-- The attributes of the rows. -/
  schema : Schema
  /-- The rows. -/
  rows : List Tuple := []
  /-- The number of updates so far. -/
  version : Nat := 0
  /-- The holder of the lock. -/
  holder? : Option LockHolder := none

namespace Relation

/-- Whether someone holds the lock. -/
def isLocked (relation : Relation) : Bool :=
  relation.holder?.isSome

/-- A row with the given values. Rows have no arrival of their own and bear time zero. -/
def row (relation : Relation) (values : List Value) : Except TupleError Tuple :=
  Tuple.arriving relation.schema values 0

/-- Loads a row. The version stays. -/
def insert (relation : Relation) (values : List Value) : Except TupleError Relation := do
  let row ← relation.row values
  return { relation with rows := relation.rows ++ [row] }

/-- Loads several rows. -/
def load (relation : Relation) (rows : List (List Value)) : Except TupleError Relation := do
  let rows ← rows.mapM relation.row
  return { relation with rows := relation.rows ++ rows }

/-- Changes the rows and counts the update. -/
def update (relation : Relation) (change : List Tuple → List Tuple) : Relation :=
  { relation with rows := change relation.rows, version := relation.version + 1 }

/-- Updates a relation several times in the same way. -/
def updateRepeatedly (relation : Relation) (change : List Tuple → List Tuple) : Nat → Relation
  | 0 => relation
  | rounds + 1 => (relation.update change).updateRepeatedly change rounds

/-- The rows and the version of this moment. -/
def snapshot (relation : Relation) : Snapshot where
  rows := relation.rows
  version := relation.version

/-- Gives the lock to someone. -/
def lock (relation : Relation) (holder : LockHolder) : Relation :=
  { relation with holder? := some holder }

/-- Frees the lock. -/
def unlock (relation : Relation) : Relation :=
  { relation with holder? := none }

end Relation

end StreamQuery
