import StreamQuery.Experiment.Options
import StreamQuery.Experiment.Trial

/-!
# Command line

Runs the purchase experiment and prints its report, or prints its query plan.
-/

namespace StreamQuery

/-- The value of a computation, or its error as a failure of the program. -/
def orFail {ε α : Type} (message : ε → String) : Except ε α → IO α
  | .ok value => return value
  | .error error => throw (IO.userError (message error))

/-- A number between two bounds, the upper one left out. -/
def randomBetween (lowest bound : Int) : IO Int := do
  return lowest + (← IO.rand 0 ((bound - lowest).toNat - 1))

/-- Lets what is due at a moment happen, and then the scheduler take a turn. -/
def advance (trial : Trial) (now : Nat) : IO Trial := do
  let experiment := trial.experiment
  let mut current := trial
  if current.isPurchaseDue now then
    current ← orFail ExperimentError.message (current.purchase (← randomBetween 1 11))
  if current.isEndDue then
    current := current.endPurchases
  if current.isUpdateDue now then
    let good ← randomBetween 0 experiment.goodsCount
    let price ← randomBetween experiment.minPrice experiment.maxPrice
    current ← orFail ExperimentError.message (current.reprice good.toNat price)
    IO.sleep (UInt32.ofNat (experiment.updateTime / 1000000))
  current ← orFail ExperimentError.message current.turn
  return current.collect

/-- Runs a trial that began at a moment until the end of the purchases has come through. -/
partial def run (trial : Trial) (beginning : Nat) : IO Report := do
  let elapsed := (← IO.monoNanosNow) - beginning
  if trial.isFinished then
    return trial.report elapsed
  else
    run (← advance trial elapsed) beginning

/-- Does what the options ask for. -/
def execute (options : Options) : IO Unit := do
  let experiment := options.experiment
  if options.asksHelp then
    IO.print Options.help
  else if options.printsGraph then
    IO.println (← orFail ExperimentError.message experiment.graph)
  else
    orFail ExperimentError.message experiment.validate
    let prices ← (List.range experiment.goodsCount.toNat).mapM fun _ =>
      randomBetween experiment.minPrice experiment.maxPrice
    let trial ← orFail ExperimentError.message (Trial.start experiment prices)
    if options.isVerbose then
      IO.eprintln ("starting experiment: " ++ experiment.mode.name ++ ", " ++
        toString experiment.purchaseCount ++ " purchases, " ++ experiment.window.render)
    let report ← run trial (← IO.monoNanosNow)
    IO.println report.render

end StreamQuery

/-- Reads the command line and does what it asks for. -/
def main (arguments : List String) : IO UInt32 := do
  try
    let options ← StreamQuery.orFail StreamQuery.OptionError.message
      (StreamQuery.Options.ofArguments arguments)
    StreamQuery.execute options
    return 0
  catch error =>
    IO.eprintln ("Error: " ++ toString error)
    return 1
