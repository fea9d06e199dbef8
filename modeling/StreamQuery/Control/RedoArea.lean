import StreamQuery.Plan.Tree

/-!
# Redo areas

The redo area of a query tree is what starts over when the reads of a transaction are repeated: the
operators that are emptied, and the outputs of other operators that are delivered to them again.
-/

namespace StreamQuery

/-- The part of a query tree that is evaluated again. -/
structure RedoArea where
  /-- The operators that forget what they have buffered, inputs first. -/
  operators : List Nat := []
  /-- The operators outside whose output is delivered again. -/
  streams : List Nat := []
  deriving DecidableEq

namespace RedoArea

/-- Two areas, one after the other. -/
protected def append (first second : RedoArea) : RedoArea where
  operators := first.operators ++ second.operators
  streams := first.streams ++ second.streams

instance : Append RedoArea := ⟨RedoArea.append⟩

/-- Whether nothing is evaluated again. -/
def isEmpty (area : RedoArea) : Bool :=
  area.operators.isEmpty && area.streams.isEmpty

/-- Whether an operator is evaluated again. -/
def contains (area : RedoArea) (id : Nat) : Bool :=
  area.operators.contains id

/-- The area of a tree that may lie below a window, and whether it holds reads to be repeated. The
area starts at the input of the first read on each path; where a join has reads on one side only,
its other side is delivered again as well. -/
def visit (belowWindow : Bool) : QueryTree → RedoArea × Bool
  | .source _ => ({}, false)
  | .single header logic input =>
    let (area, holdsReads) := visit (belowWindow || logic.isAggregation) input
    let starts := logic.readsRelation && !holdsReads && belowWindow
    let repeats := holdsReads || starts
    (area ++
      { operators := if repeats && (belowWindow || logic.isAggregation) then [header.id] else []
        streams := if starts then [input.id] else [] },
      repeats)
  | .join header _ left right =>
    let (leftArea, leftReads) := visit true left
    let (rightArea, rightReads) := visit true right
    (leftArea ++ rightArea ++
      { operators := if leftReads || rightReads then [header.id] else []
        streams :=
          match leftReads, rightReads with
          | true, false => [right.id]
          | false, true => [left.id]
          | _, _ => [] },
      leftReads || rightReads)

/-- The redo area of a query tree. -/
def ofTree (tree : QueryTree) : RedoArea :=
  (visit false tree).1

end RedoArea

end StreamQuery
