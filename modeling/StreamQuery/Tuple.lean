import StreamQuery.Schema
import StreamQuery.Tuple.Lineage

/-!
# Tuples

A tuple is a row of values with an arrival time, a low-water mark and the stamps of the relations it
has read. The low-water mark is the oldest arrival time among the tuples it was computed from. A
stream may also carry an end-of-stream marker, which has a time but no values.
-/

namespace StreamQuery

/-- Whether a tuple carries data or ends its stream. -/
inductive TupleKind where
  | data
  | endOfStream
  deriving DecidableEq

/-- A row that flows between operators. -/
structure Tuple where
  /-- Data, or the end of the stream. -/
  kind : TupleKind
  /-- The attributes by which conditions find values. -/
  schema : Schema
  /-- The values, in the order of the attributes. -/
  values : List Value
  /-- The time of arrival; of a computed tuple, that of the newest tuple it was computed from. -/
  arrival : Int
  /-- The oldest time that the tuple was computed from. -/
  lowWater : Int
  /-- The relation versions that the tuple has read. -/
  stamps : Stamps
  /-- How the tuple came about. -/
  lineage : Lineage

namespace Tuple

/-- A data tuple that arrives at a time with values of a schema. -/
def arriving (schema : Schema) (values : List Value) (time : Int) :
    Except TupleError Tuple := do
  schema.check values
  return {
    kind := .data
    schema
    values
    arrival := time
    lowWater := time
    stamps := {}
    lineage := .arrival time }

/-- The marker that ends a stream at a time. -/
def endOfStream (schema : Schema) (time : Int) : Tuple where
  kind := .endOfStream
  schema := schema
  values := []
  arrival := time
  lowWater := time
  stamps := {}
  lineage := .arrival time

/-- Whether a tuple ends its stream. -/
def isEndOfStream (tuple : Tuple) : Bool :=
  tuple.kind = .endOfStream

/-- The tuple with another version of a relation recorded. -/
def stamped (tuple : Tuple) (relation : RelationId) (version : Nat) : Tuple :=
  { tuple with stamps := tuple.stamps.set relation version }

/-- The tuple with several versions recorded, one after the other. -/
def stampedAll (tuple : Tuple) (stamps : List (RelationId × Nat)) : Tuple :=
  stamps.foldl (fun current (relation, version) => current.stamped relation version) tuple

/-- The value at a position. -/
def value? (tuple : Tuple) (index : Nat) : Option Value :=
  tuple.values[index]?

/-- The value of the first attribute with a name. -/
def get? (tuple : Tuple) (name : String) : Option Value :=
  (tuple.schema.indexOf? name).bind tuple.value?

/-- The text of a tuple: its values, or a marker, with the arrival time. -/
def render (tuple : Tuple) : String :=
  match tuple.kind with
  | .endOfStream => "<EOS @" ++ toString tuple.arrival ++ ">"
  | .data =>
    "(" ++ ", ".intercalate (tuple.values.map Value.render) ++ ") @" ++ toString tuple.arrival

end Tuple

end StreamQuery
