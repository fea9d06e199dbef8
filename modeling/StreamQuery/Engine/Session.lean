import StreamQuery.Engine.Action

/-!
# Sessions

A session is a query with the scheduler that runs it and the clock that dates its arrivals. When the
scheduler is dropped, the locks it holds are freed; the channels and relations stay in use.
-/

namespace StreamQuery

/-- A query in use. -/
structure Session where
  /-- The query. -/
  query : Query
  /-- The fixed decisions of its scheduler. -/
  schedule : Schedule
  /-- The state of the run. -/
  execution : Execution
  /-- The clock of the arrivals. -/
  clock : LogicalClock := {}
  /-- Whether there still is a scheduler. -/
  isRunning : Bool := true

/-- One of the channels of an operator. -/
inductive ChannelKind where
  /-- The tuples that arrived at a source from outside. -/
  | arrivals
  /-- The results. -/
  | output
  deriving DecidableEq

namespace Session

/-- A session of a query that runs the tree of a root operator. -/
def start (query : Query) (root : QueryTree) (config : SchedulerConfig) :
    Except ControlError Session := do
  let schedule ← Schedule.ofTree root config
  return { query, schedule, execution := schedule.start query config }

/-- Changes the world of a session. -/
def modifyWorld (session : Session) (change : World → World) : Session :=
  { session with
    execution := { session.execution with world := change session.execution.world } }

/-- A channel of an operator. -/
def channel (session : Session) (id : Nat) : ChannelKind → Channel
  | .arrivals => (session.execution.world.arrivals? id).getD {}
  | .output => session.execution.world.output id

/-- Changes a channel of an operator. -/
def modifyChannel (session : Session) (id : Nat) (kind : ChannelKind) (change : Channel → Channel) :
    Session :=
  match kind with
  | .arrivals => session.modifyWorld (·.modifyArrivals id change)
  | .output => session.modifyWorld (·.modifyOutput id change)

/-- The time of an arrival: a given one, or the next tick of the clock. -/
def arrivalTime (session : Session) : Option Int → Int × Session
  | some time => (time, session)
  | none =>
    let (time, clock) := session.clock.tick
    (time, { session with clock })

/-- Lets rows of values arrive on a channel, each at its own time and with the given stamps. A row
that does not fit the schema has used up its time and keeps the rows after it from arriving. -/
def feed (session : Session) (id : Nat) (kind : ChannelKind) (schema : Schema) (time? : Option Int)
    (stamps : List (RelationId × Nat)) : List (List Value) → Session × Except TupleError Unit
  | [] => (session, .ok ())
  | values :: rows =>
    let (time, timed) := session.arrivalTime time?
    match Tuple.arriving schema values time with
    | .error error => (timed, .error error)
    | .ok tuple =>
      let fed := timed.modifyChannel id kind (·.enqueue (tuple.stampedAll stamps))
      fed.feed id kind schema time? stamps rows

/-- Ends a channel. -/
def endStream (session : Session) (id : Nat) (kind : ChannelKind) (schema : Schema)
    (time? : Option Int) : Session :=
  let (time, timed) := session.arrivalTime time?
  timed.modifyChannel id kind (·.enqueue (.endOfStream schema time))

/-- Takes all tuples that wait on a channel. -/
def drain (session : Session) (id : Nat) (kind : ChannelKind) : List Tuple × Session :=
  ((session.channel id kind).queue, session.modifyChannel id kind Channel.clear)

/-- Lets the scheduler take up to a number of turns, stopping at the first failure. -/
def wake (session : Session) (count : Nat) : Session × Nat × Option ControlError :=
  let (execution, successes, failure?) :=
    session.schedule.wakeRepeatedly count session.execution
  ({ session with execution }, successes, failure?)

/-- Drops the scheduler and frees the locks that it holds. -/
def drop (session : Session) : Session :=
  { session.modifyWorld fun world => { world with catalog := world.catalog.releaseAll } with
    isRunning := false }

/-- The text that describes the processing loop of a session after some turns. -/
def renderProcessor (session : Session) (wakeUps : Nat) : String :=
  "QueryProcessor \x7b mode: " ++ session.schedule.mode.label ++ ", wake_ups: " ++
    toString wakeUps ++ ", .. \x7d"

end Session

end StreamQuery
