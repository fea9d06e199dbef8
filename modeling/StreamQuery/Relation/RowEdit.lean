import StreamQuery.Relation

/-!
# Edits of rows

The changes that an update of a relation is composed of. An edit at a position where there is no row
changes nothing.
-/

namespace StreamQuery

/-- A change of the rows of a relation. Rows are given by their values. -/
inductive RowEdit where
  | push (values : List Value)
  | set (index : Nat) (values : List Value)
  | pop
  | clear
  | remove (index : Nat)
  | swap (first second : Nat)

namespace RowEdit

/-- Exchanges two rows. -/
def exchange (rows : List Tuple) (first second : Nat) : List Tuple :=
  match rows[first]?, rows[second]? with
  | some firstRow, some secondRow => (rows.set first secondRow).set second firstRow
  | _, _ => rows

/-- The change that an edit makes to the rows of a relation, if its values make a row. -/
def change (relation : Relation) : RowEdit → Except TupleError (List Tuple → List Tuple)
  | push values => do
    let row ← relation.row values
    return fun rows => rows ++ [row]
  | set index values => do
    let row ← relation.row values
    return fun rows => rows.set index row
  | pop => return List.dropLast
  | clear => return fun _ => []
  | remove index => return fun rows => rows.eraseIdx index
  | swap first second => return fun rows => exchange rows first second

/-- The change that several edits make one after the other, if all their values make rows. -/
def changeAll (relation : Relation) (edits : List RowEdit) :
    Except TupleError (List Tuple → List Tuple) := do
  let changes ← edits.mapM (change relation)
  return fun rows => changes.foldl (fun current apply => apply current) rows

end RowEdit

end StreamQuery
