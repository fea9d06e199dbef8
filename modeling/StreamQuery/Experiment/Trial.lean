import StreamQuery.Experiment
import StreamQuery.Experiment.Report
import StreamQuery.Relation.RowEdit

/-!
# Trials

A trial is an experiment under way. Purchases go through the goods in turn; prices, amounts and the
good that gets a new price are left to chance and handed in from outside, and so is the time.
-/

namespace StreamQuery

/-- An experiment under way. -/
structure Trial where
  /-- The settings. -/
  experiment : Experiment
  /-- The running query. -/
  session : Session
  /-- The number of purchases sent. -/
  sent : Nat := 0
  /-- Whether the end of the purchases was sent. -/
  hasSentEnd : Bool := false
  /-- The number of relation updates. -/
  updates : Nat := 0
  /-- The number of means received. -/
  results : Nat := 0
  /-- Whether the end of the purchases has come through the query. -/
  isFinished : Bool := false

namespace Trial

/-- A row of the goods, or a purchase, from its two numbers. -/
def row (first second : Int) : List Value :=
  [.int (.ofInt first), .int (.ofInt second)]

/-- The place of the goods in the catalog. -/
def goodsPlace : Nat := 0

/-- A trial of an experiment with the first prices of the goods, in order. -/
def start (experiment : Experiment) (prices : List Int) : Except ExperimentError Trial := do
  let (query, tree) ← experiment.query
  let session ← (Session.start query tree experiment.config).mapError .control
  let rows := prices.zipIdx.map fun (price, good) => row good price
  match session.execution.world.catalog.relations[goodsPlace]? with
  | none => return { experiment, session }
  | some goods =>
    let loaded ← (goods.load rows).mapError .tuple
    let filled := session.modifyWorld fun world =>
      { world with catalog := world.catalog.modify goodsPlace fun _ => loaded }
    return { experiment, session := filled }

/-- Whether a purchase is due at a time, in nanoseconds from the start. -/
def isPurchaseDue (trial : Trial) (now : Nat) : Bool :=
  trial.sent < trial.experiment.purchaseCount &&
    trial.sent * trial.experiment.purchaseInterval ≤ now

/-- Whether the end of the purchases is due. -/
def isEndDue (trial : Trial) : Bool :=
  trial.experiment.purchaseCount ≤ trial.sent && !trial.hasSentEnd

/-- Whether an update of the goods is due at a time, in nanoseconds from the start, and can take
place. Updates that came before have kept the goods for a while each. -/
def isUpdateDue (trial : Trial) (now : Nat) : Bool :=
  (trial.updates + 1) * trial.experiment.updateInterval +
      trial.updates * trial.experiment.updateTime ≤ now &&
    trial.session.execution.world.catalog.relations[goodsPlace]?.any (!·.isLocked)

/-- Sends the next purchase, of a given amount. -/
def purchase (trial : Trial) (amount : Int) : Except ExperimentError Trial := do
  let values := row (trial.sent % trial.experiment.goodsCount) amount
  match trial.session.query.find? Experiment.purchases with
  | none => return trial
  | some source =>
    let (session, outcome) :=
      trial.session.feed source.id .arrivals source.schema none [] [values]
    outcome.mapError .tuple
    return { trial with session, sent := trial.sent + 1 }

/-- Sends the end of the purchases. -/
def endPurchases (trial : Trial) : Trial :=
  match trial.session.query.find? Experiment.purchases with
  | none => { trial with hasSentEnd := true }
  | some source =>
    { trial with
      session := trial.session.endStream source.id .arrivals source.schema none
      hasSentEnd := true }

/-- Gives a good a new price. -/
def reprice (trial : Trial) (good : Nat) (price : Int) : Except ExperimentError Trial := do
  let some goods := trial.session.execution.world.catalog.relations[goodsPlace]? | return trial
  let change ← ((RowEdit.set good (row good price)).change goods).mapError .tuple
  let session := trial.session.modifyWorld (·.changeRelation goodsPlace (·.update change))
  return { trial with session, updates := trial.updates + 1 }

/-- Lets the scheduler take a turn. -/
def turn (trial : Trial) : Except ExperimentError Trial :=
  match trial.session.wake 1 with
  | (session, _, none) => .ok { trial with session }
  | (_, _, some error) => .error (.control error)

/-- Receives the means that are ready. -/
def collect (trial : Trial) : Trial :=
  match trial.session.query.find? Experiment.averagePrice with
  | none => trial
  | some tree =>
    let (tuples, session) := trial.session.drain tree.id .output
    { trial with
      session
      results := trial.results + tuples.countP (!·.isEndOfStream)
      isFinished := trial.isFinished || tuples.any Tuple.isEndOfStream }

/-- The report on a trial that took a number of nanoseconds. -/
def report (trial : Trial) (elapsed : Nat) : Report where
  mode := trial.experiment.mode
  window := trial.experiment.window
  purchases := trial.sent
  results := trial.results
  elapsed := elapsed
  updates := trial.updates
  updateInterval := trial.experiment.updateInterval
  redoCount := trial.session.execution.metrics.redoCount
  consistentRate? := trial.session.schedule.consistentRate? trial.session.execution
  metrics := trial.session.execution.metrics

end Trial

end StreamQuery
