import StreamQuery.Condition
import StreamQuery.Relation

/-!
# Selections, projections and matches

What operators with one input and no buffer do with a tuple.
-/

namespace StreamQuery

/-- The results of a selection: the tuple itself if it satisfies the condition. -/
def selectTuple (condition : Condition) (tuple : Tuple) : Except OperatorError (List Tuple) :=
  (condition.check tuple).map fun passes => if passes then [tuple] else []

/-- The tuple with the values at some positions, as a tuple of another schema. -/
def projectTuple (indices : List Nat) (schema : Schema) (tuple : Tuple) :
    Except OperatorError Tuple := do
  let values ← indices.mapM fun index =>
    match tuple.value? index with
    | some value => .ok value
    | none => .error (.unknownPosition index)
  return { tuple with kind := .data, schema, values }

/-- A tuple joined with a row that was found at a position in a version of a relation. Times are
those of the tuple; the version of the relation is recorded. -/
def matchTuple (schema : Schema) (relation : RelationId) (version : Nat) (tuple : Tuple)
    (row : Tuple) (position : Nat) : Tuple :=
  { tuple with
    kind := .data
    schema
    values := tuple.values ++ row.values
    stamps := tuple.stamps.set relation version
    lineage := .matched tuple.lineage relation version position }

/-- The results of joining a tuple with those of the given rows that satisfy a condition. -/
def matchRows (condition : Condition) (schema : Schema) (relation : RelationId) (version : Nat)
    (tuple : Tuple) : List (Tuple × Nat) → Except OperatorError (List Tuple)
  | [] => .ok []
  | (row, position) :: rows => do
    let matched ← condition.checkPair tuple row
    let later ← matchRows condition schema relation version tuple rows
    return if matched then
      matchTuple schema relation version tuple row position :: later
    else
      later

/-- The results of joining a tuple with the rows of a relation. -/
def matchSnapshot (condition : Condition) (schema : Schema) (relation : RelationId)
    (snapshot : Snapshot) (tuple : Tuple) : Except OperatorError (List Tuple) :=
  matchRows condition schema relation snapshot.version tuple snapshot.rows.zipIdx

end StreamQuery
