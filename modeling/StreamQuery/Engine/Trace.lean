import StreamQuery.Engine.Action

/-!
# Traces

The trace of a run lists every single evaluation of an operator, in order, with the worlds before
and after it. From a trace one reads off which windows an operator has completed and what it has
sent.
-/

namespace StreamQuery

/-- One evaluation of one operator in a run. -/
structure Firing where
  /-- The operator. -/
  operator : QueryTree
  /-- What the query worked on before. -/
  before : World
  /-- What the query worked on afterwards. -/
  after : World

namespace World

/-- The windows that an aggregation completes when it is evaluated next, oldest first. They are
evaluated in this order, up to the first that is discarded or fails. -/
def completedWindows (world : World) : QueryTree → List Contents
  | .single header (.aggregate _ _) input =>
    if world.hasPendingCommit header.id then
      []
    else
      match (world.output input.id).peek?,
          world.cells[header.id]?.bind fun cell => cell.memory.aggregation? with
      | some tuple, some aggregation =>
        if tuple.isEndOfStream then [] else (aggregation.synopsis.enqueue tuple).2
      | _, _ => []
  | _ => []

end World

namespace Firing

/-- The windows that were completed. -/
def windows (firing : Firing) : List Contents :=
  firing.before.completedWindows firing.operator

/-- The tuples that were sent on. -/
def sent (firing : Firing) : List Tuple :=
  (firing.after.output firing.operator.id).queue.drop
    (firing.before.output firing.operator.id).queue.length

/-- All tuples that one operator sent on, in order. -/
def sentBy (id : Nat) (firings : List Firing) : List Tuple :=
  firings.flatMap fun firing => if firing.operator.id = id then firing.sent else []

end Firing

namespace Schedule

/-- The firing of an operator that is evaluated. -/
def fire (schedule : Schedule) (operator : QueryTree) (world : World) : Firing where
  operator
  before := world
  after := (world.evaluate (schedule.role operator.id) operator).1

/-- The firings of a batch of evaluations. -/
def batchFirings (schedule : Schedule) (operator : QueryTree) : Nat → Execution → List Firing
  | 0, _ => []
  | count + 1, execution =>
    schedule.fire operator execution.world ::
      match execution.world.evaluate (schedule.role operator.id) operator with
      | (_, .error _) => []
      | (world, .ok step) =>
        if step = .idle || step.isSignal then
          []
        else
          schedule.batchFirings operator count (({ execution with world }).countStep step)

/-- The firings of one turn of the scheduler. -/
def firings (schedule : Schedule) (execution : Execution) : List Firing :=
  match schedule.order[execution.cursor]? with
  | none => []
  | some operator =>
    schedule.batchFirings operator execution.batchCount (schedule.advanceCursor execution)

/-- The firings of one action. -/
def actionFirings (schedule : Schedule) (execution : Execution) : Action → List Firing
  | .wakeUp => schedule.firings execution
  | _ => []

/-- The firings of a sequence of actions. -/
def trace (schedule : Schedule) (execution : Execution) : List Action → List Firing
  | [] => []
  | action :: actions =>
    schedule.actionFirings execution action ++
      schedule.trace (schedule.perform execution action) actions

end Schedule

end StreamQuery
