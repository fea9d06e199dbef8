import StreamQuery.Channel
import StreamQuery.Operator.Aggregation
import StreamQuery.Operator.Matching
import StreamQuery.Operator.WindowJoin
import StreamQuery.Plan.Tree

/-!
# Cells

A cell holds what changes of one operator while a query runs: its output, what it remembers of its
input, and how many tuples went in and out.
-/

namespace StreamQuery

/-- What an operator remembers between evaluations. -/
inductive Memory where
  /-- A source has the tuples that arrived from outside. -/
  | source (arrivals : Channel)
  /-- A selection counts the tuples it has seen and those that passed. -/
  | select (seen passed : Nat)
  /-- Projections and matches remember nothing. -/
  | stateless
  | aggregate (aggregation : Aggregation)
  | join (join : WindowJoin)

namespace Memory

/-- What an operator remembers at the start. -/
def initial : QueryTree → Memory
  | .source _ => source {}
  | .single _ (.select _) _ => select 0 0
  | .single _ (.project _) _ => stateless
  | .single _ (.combine _ _) _ => stateless
  | .single _ (.aggregate window _) _ => aggregate { synopsis := .ofWindow window }
  | .join _ logic _ _ =>
    join
      { left := { synopsis := .ofWindow logic.leftWindow }
        right := { synopsis := .ofWindow logic.rightWindow } }

/-- Forgets buffered windows. Arrivals and counters stay. -/
def reset : Memory → Memory
  | aggregate aggregation => aggregate aggregation.reset
  | join state => join state.reset
  | memory => memory

/-- The tuples that arrived from outside. -/
def arrivals? : Memory → Option Channel
  | source arrivals => some arrivals
  | _ => none

/-- The state of an aggregation. -/
def aggregation? : Memory → Option Aggregation
  | aggregate aggregation => some aggregation
  | _ => none

/-- The state of a window join. -/
def join? : Memory → Option WindowJoin
  | join state => some state
  | _ => none

/-- The share of tuples that passed a selection. -/
def selectivity? : Memory → Option Float
  | select seen passed => if seen = 0 then none else some (Float.ofNat passed / Float.ofNat seen)
  | _ => none

end Memory

/-- The changing part of an operator. -/
structure Cell where
  /-- The results that wait for the consumer. -/
  output : Channel := {}
  /-- What is remembered of the input. -/
  memory : Memory
  /-- The number of tuples taken from the inputs. -/
  consumed : Nat := 0
  /-- The number of tuples sent to the output. -/
  emitted : Nat := 0

namespace Cell

/-- The cell of an operator at the start. -/
def initial (tree : QueryTree) : Cell where
  memory := .initial tree

/-- Counts tuples taken from the inputs. -/
def consume (cell : Cell) (count : Nat) : Cell :=
  { cell with consumed := cell.consumed + count }

/-- Sends tuples to the output. -/
def send (cell : Cell) (tuples : List Tuple) : Cell :=
  { cell with
    output := cell.output.enqueueAll tuples
    emitted := cell.emitted + tuples.length }

/-- Whether the last commit is still open. -/
def hasPendingCommit (cell : Cell) : Bool :=
  cell.memory.aggregation?.any Aggregation.pendingCommit

/-- Closes an open commit. -/
def closeCommit (cell : Cell) : Cell :=
  match cell.memory with
  | .aggregate aggregation =>
    { cell with memory := .aggregate { aggregation with pendingCommit := false } }
  | _ => cell

/-- Passes on the oldest arrival of a source. -/
def passOn (cell : Cell) (name : String) : Cell × Except OperatorError Step :=
  match cell.memory with
  | .source arrivals =>
    match arrivals.dequeue? with
    | none => (cell, .ok .idle)
    | some (tuple, rest) =>
      ((({ cell with memory := .source rest }).consume 1).send [tuple], .ok (.emitted 1))
  | _ => (cell, .error (.invalidShape name))

/-- Sends the results of an evaluation, if it did not fail. -/
def deliver (cell : Cell) : Except OperatorError (List Tuple) → Cell × Except OperatorError Step
  | .error error => (cell, .error error)
  | .ok [] => (cell, .ok .noOutput)
  | .ok (tuple :: tuples) =>
    (cell.send (tuple :: tuples), .ok (.emitted (tuple :: tuples).length))

/-- Selects a tuple, which is counted before the condition is evaluated. -/
def select (cell : Cell) (name : String) (condition : Condition) (tuple : Tuple) :
    Cell × Except OperatorError Step :=
  match cell.memory with
  | .select seen passed =>
    let results := selectTuple condition tuple
    let passing := match results with
      | .ok tuples => tuples.length
      | .error _ => 0
    ({ cell with memory := .select (seen + 1) (passed + passing) }).deliver results
  | _ => (cell, .error (.invalidShape name))

/-- Aggregates a tuple. Results computed before a failure have been sent, but are not counted. -/
def aggregate (cell : Cell) (header : OperatorHeader) (function : AggregateFunction)
    (role : CommitRole) (tuple : Tuple) : Cell × Except OperatorError Step :=
  match cell.memory with
  | .aggregate aggregation =>
    let (after, results, step) := aggregation.accept function header.schema role tuple
    let updated := { cell with memory := .aggregate after }
    match step with
    | .ok step => (updated.send results, .ok step)
    | .error error =>
      ({ updated with output := updated.output.enqueueAll results }, .error error)
  | _ => (cell, .error (.invalidShape header.name))

/-- Joins the tuples that arrived at a window join. Markers are sent before the results; if the
results fail, they have been sent but are not counted. -/
def joinArrivals (cell : Cell) (header : OperatorHeader) (condition : Condition)
    (arrivals : List (Side × Tuple)) : Cell × Except OperatorError Step :=
  match cell.memory with
  | .join state =>
    let turn := arrivals.foldl WindowJoin.Turn.receive { join := state }
    let updated := ({ cell with memory := .join turn.join }).consume arrivals.length
    match turn.results condition header.schema with
    | .ok results => updated.deliver (.ok (turn.markers ++ results))
    | .error error =>
      ({ updated with output := updated.output.enqueueAll turn.markers }, .error error)
  | _ => (cell, .error (.invalidShape header.name))

/-- Starts over: forgets buffered windows, and waiting results unless they are kept. -/
def restart (cell : Cell) (keepsOutput : Bool) : Cell :=
  { cell with
    memory := cell.memory.reset
    output := if keepsOutput then cell.output else cell.output.clear }

end Cell

end StreamQuery
