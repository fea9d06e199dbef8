import StreamQuery.Engine.Session
import StreamQuery.Plan.Graph

/-!
# The purchase experiment

A stream of purchases is matched with a relation of goods whose prices change, and the mean price is
taken over windows of purchases.
-/

namespace StreamQuery

/-- The settings of an experiment. Spans of time are in nanoseconds. -/
structure Experiment where
  /-- The concurrency control protocol. -/
  mode : Mode := .uncontrolled
  /-- The number of commits that make up one pessimistic transaction. -/
  jointCount : Nat := 1
  /-- The number of evaluations in one wake-up. -/
  batchCount : Nat := 1
  /-- The pause between relation updates. -/
  updateInterval : Nat := 1000000
  /-- How long an update keeps the relation. -/
  updateTime : Nat := 10000
  /-- The pause between purchases. -/
  purchaseInterval : Nat := 1000000
  /-- The number of purchases. -/
  purchaseCount : Nat := 1000
  /-- The number of goods. -/
  goodsCount : Int := 1000
  /-- The lowest price. -/
  minPrice : Int := 1000
  /-- The price that none reaches. -/
  maxPrice : Int := 100000
  /-- The width of the window, in purchases. -/
  windowWidth : Nat := 5
  /-- The stride of the window, in purchases. -/
  windowStride : Nat := 5

/-- Why an experiment cannot take place. -/
inductive ExperimentError where
  /-- There are no goods. -/
  | noGoods (count : Int)
  /-- There is no price between the bounds. -/
  | noPrices (lowest bound : Int)
  /-- The query cannot be built. -/
  | plan (error : PlanError)
  /-- The query cannot be scheduled, or an operator failed. -/
  | control (error : ControlError)
  /-- A row does not fit its relation or stream. -/
  | tuple (error : TupleError)
  deriving DecidableEq

/-- The message of an experiment error. -/
def ExperimentError.message : ExperimentError → String
  | noGoods count => "goods count must be positive, got " ++ toString count
  | noPrices lowest bound =>
    "min price " ++ toString lowest ++ " must be below max price " ++ toString bound
  | plan error => error.message
  | control error => error.message
  | tuple error => error.message

namespace Experiment

/-- The window of the mean. -/
def window (experiment : Experiment) : Window :=
  .rows experiment.windowWidth experiment.windowStride

/-- The name of the relation. -/
def goods : String := "goods"

/-- The name of the source. -/
def purchases : String := "purchases"

/-- The name of the operator whose results are reported. -/
def averagePrice : String := "avg_price"

/-- The declarations of the query. -/
def declarations (experiment : Experiment) : List Declaration :=
  [.relation
      { name := goods
        schema := ⟨[{ name := "id", type := .int }, { name := "price", type := .int }]⟩ },
    .operator purchases
      (.stream ⟨[{ name := "goods_id", type := .int }, { name := "amount", type := .int }]⟩),
    .operator "priced" (.combine purchases goods (.attributes "goods_id" .equal "id")),
    .operator averagePrice (.mean "priced" "price" experiment.window)]

/-- Fails if the settings leave no goods or no prices. -/
def validate (experiment : Experiment) : Except ExperimentError Unit :=
  if experiment.goodsCount ≤ 0 then
    .error (.noGoods experiment.goodsCount)
  else if experiment.maxPrice ≤ experiment.minPrice then
    .error (.noPrices experiment.minPrice experiment.maxPrice)
  else
    .ok ()

/-- The query of an experiment and the tree that is run. -/
def query (experiment : Experiment) : Except ExperimentError (Query × QueryTree) := do
  experiment.validate
  let query ← (Query.ofDeclarations experiment.declarations).mapError .plan
  let tree ← (query.plan averagePrice).mapError .plan
  return (query, tree)

/-- How the query is to be scheduled. -/
def config (experiment : Experiment) : SchedulerConfig :=
  .ofChoices (some experiment.mode) (some experiment.jointCount) (some experiment.batchCount) none

/-- The query plan of an experiment as a graph. -/
def graph (experiment : Experiment) : Except ExperimentError String := do
  let (_, tree) ← experiment.query
  return tree.graph none

end Experiment

end StreamQuery
