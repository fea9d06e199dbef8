import StreamQuery.Engine.Schedule

/-!
# Actions

What happens to a running query, one action at a time: tuples arrive, relations change, the
scheduler wakes up, and consumers collect results. `Schedule.performAll` is a run with any
interleaving.
-/

namespace StreamQuery

/-- Something that happens to a running query. -/
inductive Action where
  /-- A tuple arrives at a source. -/
  | arrive (source : Nat) (tuple : Tuple)
  /-- A row is loaded into a relation, which keeps its version. -/
  | load (place : Nat) (row : Tuple)
  /-- A relation is updated. -/
  | update (place : Nat) (change : List Tuple → List Tuple)
  /-- The results of an operator are taken away. -/
  | collect (operator : Nat)
  /-- The number of evaluations in one wake-up is changed. -/
  | setBatchCount (count : Nat)
  /-- The scheduler takes a turn. -/
  | wakeUp

namespace World

/-- Changes the arrivals of a source. -/
def modifyArrivals (world : World) (id : Nat) (change : Channel → Channel) : World :=
  world.modifyCell id fun cell =>
    match cell.memory with
    | .source arrivals => { cell with memory := .source (change arrivals) }
    | _ => cell

/-- The arrivals of a source. -/
def arrivals? (world : World) (id : Nat) : Option Channel :=
  world.cells[id]?.bind fun cell => cell.memory.arrivals?

/-- Changes a relation, unless its lock is held. -/
def changeRelation (world : World) (place : Nat) (change : Relation → Relation) : World :=
  { world with
    catalog := world.catalog.modify place fun relation =>
      if relation.isLocked then relation else change relation }

end World

namespace Schedule

/-- What an action makes of a running query. Changes of a locked relation do not take place. -/
def perform (schedule : Schedule) (execution : Execution) : Action → Execution
  | .arrive source tuple =>
    { execution with
      world := execution.world.modifyArrivals source (·.enqueue tuple) }
  | .load place row =>
    { execution with
      world := execution.world.changeRelation place fun relation =>
        { relation with rows := relation.rows ++ [row] } }
  | .update place change =>
    { execution with world := execution.world.changeRelation place (·.update change) }
  | .collect operator =>
    { execution with world := execution.world.modifyOutput operator Channel.clear }
  | .setBatchCount count => execution.setBatchCount count
  | .wakeUp => (schedule.wakeUp execution).1

/-- What a sequence of actions makes of a running query. -/
def performAll (schedule : Schedule) (execution : Execution) (actions : List Action) :
    Execution :=
  actions.foldl schedule.perform execution

/-- Takes turns until a number of them succeeded or one failed: the execution afterwards, the number
of turns that succeeded, and the failure. -/
def wakeRepeatedly (schedule : Schedule) :
    Nat → Execution → Execution × Nat × Option ControlError
  | 0, execution => (execution, 0, none)
  | count + 1, execution =>
    match schedule.wakeUp execution with
    | (after, .error error) => (after, 0, some error)
    | (after, .ok ()) =>
      let (final, successes, failure?) := schedule.wakeRepeatedly count after
      (final, successes + 1, failure?)

/-- The share of the windows of the commit operator that were consistent. -/
def consistentRate? (schedule : Schedule) (execution : Execution) : Option Float :=
  schedule.commit?.bind fun id =>
    execution.world.cells[id]?.bind fun cell =>
      cell.memory.aggregation?.bind Aggregation.consistentRate?

end Schedule

end StreamQuery
