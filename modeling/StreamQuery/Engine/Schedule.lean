import StreamQuery.Control.CommitOperator
import StreamQuery.Control.Config
import StreamQuery.Control.RedoArea
import StreamQuery.Engine.World

/-!
# Schedules

A schedule is what is decided about a query tree before it runs: the order of evaluation, the commit
operator and the redo area. `Schedule.wakeUp` is one turn of the scheduler.
-/

namespace StreamQuery

/-- The fixed decisions about a running query. -/
structure Schedule where
  /-- The query tree. -/
  tree : QueryTree
  /-- The concurrency control protocol. -/
  mode : Mode
  /-- The order of evaluation. -/
  policy : SchedulingPolicy
  /-- The number of commits that make up one pessimistic transaction. -/
  jointCount : Nat
  /-- The place of the commit operator. -/
  commit? : Option Nat
  /-- Whether the window of the commit operator itself covers reads of relations. -/
  overlaps : Bool
  /-- What is evaluated again when a transaction is repeated. -/
  redo : RedoArea

/-- What a scheduler counts. -/
structure SchedulerMetrics where
  /-- Evaluations that did not fail. -/
  steps : Nat := 0
  /-- Those of them that found no input. -/
  idleSteps : Nat := 0
  /-- Commits. -/
  commits : Nat := 0
  /-- Ends of pessimistic transactions. -/
  afterCommits : Nat := 0
  /-- Repetitions after a window with mixed versions. -/
  redoCount : Nat := 0
  deriving DecidableEq

/-- A running query. -/
structure Execution where
  /-- What the query works on. -/
  world : World
  /-- The place in the order of evaluation of the operator that is next. -/
  cursor : Nat := 0
  /-- The number of evaluations in one wake-up. -/
  batchCount : Nat
  /-- The commits since a pessimistic transaction ended. -/
  openCommits : Nat := 0
  /-- The counters. -/
  metrics : SchedulerMetrics := {}

namespace Schedule

/-- The schedule of a query tree under a configuration. -/
def ofTree (tree : QueryTree) (config : SchedulerConfig) : Except ControlError Schedule := do
  let commit? ← tree.validatedCommitOperator
  return {
    tree
    mode := config.mode
    policy := config.policy
    jointCount := config.jointCount
    commit? := commit?.map QueryTree.id
    overlaps := tree.commitOverlapsRead
    redo :=
      if commit?.isSome && config.mode ≠ .uncontrolled then .ofTree tree else {} }

/-- The operators in the order of evaluation. -/
def order (schedule : Schedule) : List QueryTree :=
  schedule.tree.postOrder

/-- Whether the area is evaluated again at the end of a transaction. Under two-phase locking that is
so only if the window of the commit operator itself covers reads of relations. -/
def replaysArea (schedule : Schedule) : Bool :=
  schedule.mode ≠ .twoPhaseLocking || schedule.overlaps

/-- The execution of a query at the start. -/
def start (schedule : Schedule) (query : Query) (config : SchedulerConfig) : Execution :=
  let world := World.initial query schedule.mode
  { world :=
      if schedule.replaysArea then
        world.modifyOutputs schedule.redo.streams (·.setProtected true)
      else
        world
    batchCount := config.batchCount }

/-- The part of an operator in concurrency control. -/
def role (schedule : Schedule) (id : Nat) : CommitRole :=
  .of schedule.mode (schedule.commit? = some id)

end Schedule

namespace Execution

/-- Counts an evaluation that did not fail. -/
def countStep (execution : Execution) (step : Step) : Execution :=
  { execution with
    metrics :=
      { execution.metrics with
        steps := execution.metrics.steps + 1
        idleSteps := execution.metrics.idleSteps + if step = .idle then 1 else 0 } }

/-- Counts a commit. -/
def countCommit (execution : Execution) : Execution :=
  { execution with
    metrics := { execution.metrics with commits := execution.metrics.commits + 1 } }

/-- Sets the number of evaluations in one wake-up, at least one. -/
def setBatchCount (execution : Execution) (count : Nat) : Execution :=
  { execution with batchCount := max count 1 }

end Execution

namespace Schedule

/-- Evaluates an operator up to a number of times, until it is idle, signals or fails. -/
def evaluateBatch (schedule : Schedule) (operator : QueryTree) :
    Nat → Execution → Execution × Except ControlError Step
  | 0, execution => (execution, .ok .idle)
  | count + 1, execution =>
    match execution.world.evaluate (schedule.role operator.id) operator with
    | (world, .error error) =>
      ({ execution with world }, .error (.evaluation operator.name error))
    | (world, .ok step) =>
      let counted := ({ execution with world }).countStep step
      if step = .idle || step.isSignal then
        (counted, .ok step)
      else
        schedule.evaluateBatch operator count counted

/-- Empties the operators of the redo area. What the commit operator has sent stays. -/
def restartArea (schedule : Schedule) (execution : Execution) : Execution :=
  { execution with
    world := execution.world.restart schedule.commit? schedule.redo.operators }

/-- Changes the channels that lead into the redo area. -/
def modifyInlets (schedule : Schedule) (execution : Execution) (change : Channel → Channel) :
    Execution :=
  { execution with world := execution.world.modifyOutputs schedule.redo.streams change }

/-- Commits windows, after which nothing from before a mark is needed again. -/
def commitBefore (schedule : Schedule) (execution : Execution) (mark : Int) : Execution :=
  schedule.modifyInlets execution.countCommit (·.evictBefore mark)

/-- Evaluates the redo area again from the start. -/
def redoArea (schedule : Schedule) (execution : Execution) : Execution :=
  let counted :=
    { execution with
      metrics := { execution.metrics with redoCount := execution.metrics.redoCount + 1 } }
  { schedule.modifyInlets (schedule.restartArea counted) Channel.recover with cursor := 0 }

/-- Ends a pessimistic transaction when a tuple with a low-water mark waits: locks are freed or
copies renewed, and the redo area is evaluated again from that mark on. -/
def endTransaction (schedule : Schedule) (execution : Execution) (waiting : Int) : Execution :=
  let ended :=
    { execution with
      world := execution.world.endTransactions schedule.mode schedule.order
      openCommits := 0
      metrics := { execution.metrics with afterCommits := execution.metrics.afterCommits + 1 } }
  if schedule.replaysArea then
    schedule.restartArea (schedule.modifyInlets ended (·.evictAndRewind waiting))
  else
    ended

/-- Acts on a step under optimistic control. -/
def reactOptimistically (schedule : Schedule) (execution : Execution) : Step → Execution
  | .lostConsistency (some mark) => schedule.redoArea (schedule.commitBefore execution mark)
  | .lostConsistency none => schedule.redoArea execution
  | .commit mark => schedule.commitBefore execution mark
  | _ => execution

/-- Acts on a step under pessimistic control. -/
def reactPessimistically (schedule : Schedule) (execution : Execution) : Step → Execution
  | .commit _ => { execution.countCommit with openCommits := execution.openCommits + 1 }
  | .pendingAbort waiting =>
    if schedule.jointCount ≤ execution.openCommits then
      schedule.endTransaction execution waiting
    else
      execution
  | _ => execution

/-- Acts on the step that a wake-up ended with. -/
def react (schedule : Schedule) (execution : Execution) (step : Step) : Execution :=
  match schedule.mode with
  | .uncontrolled => execution
  | .optimistic => schedule.reactOptimistically execution step
  | .twoPhaseLocking => schedule.reactPessimistically execution step
  | .snapshot => schedule.reactPessimistically execution step

/-- Advances the cursor by one place, from the last one back to the first. -/
def advanceCursor (schedule : Schedule) (execution : Execution) : Execution :=
  { execution with cursor := (execution.cursor + 1) % schedule.order.length }

/-- One turn of the scheduler: the next operator is evaluated, and the protocol acts on what it
reports. What a failing operator has changed stays changed. -/
def wakeUp (schedule : Schedule) (execution : Execution) :
    Execution × Except ControlError Unit :=
  match schedule.order[execution.cursor]? with
  | none => (execution, .error .emptyPlan)
  | some operator =>
    match schedule.evaluateBatch operator execution.batchCount
        (schedule.advanceCursor execution) with
    | (after, .error error) => (after, .error error)
    | (after, .ok step) => (schedule.react after step, .ok ())

end Schedule

end StreamQuery
