import StreamQuery.Control.Mode
import StreamQuery.Decimal.Fixed
import StreamQuery.Engine.Schedule
import StreamQuery.Window

/-!
# Experiment reports

What is printed at the end of an experiment: what was run, how long it took, and how often the
query and the relation made progress.
-/

namespace StreamQuery

/-- A span of time in seconds, from nanoseconds. Whole seconds and the rest are converted apart. -/
def secondsOfNanoseconds (nanoseconds : Nat) : Float :=
  Float.ofNat (nanoseconds / 1000000000) + Float.ofNat (nanoseconds % 1000000000) / 1000000000

/-- The outcome of an experiment. -/
structure Report where
  /-- The concurrency control protocol. -/
  mode : Mode
  /-- The window of the commit operator. -/
  window : Window
  /-- The number of purchases sent. -/
  purchases : Nat
  /-- The number of means received. -/
  results : Nat
  /-- The time from the start to the end of the stream, in nanoseconds. -/
  elapsed : Nat
  /-- The number of relation updates. -/
  updates : Nat
  /-- The pause between relation updates, in nanoseconds. -/
  updateInterval : Nat
  /-- The number of repetitions. -/
  redoCount : Nat
  /-- The share of evaluated windows that were consistent. -/
  consistentRate? : Option Float
  /-- What the scheduler counted. -/
  metrics : SchedulerMetrics

namespace Report

/-- The duration in seconds, positive so that rates are defined. -/
def seconds (report : Report) : Float :=
  let seconds := secondsOfNanoseconds report.elapsed
  let least := Float.ofBits 0x3CB0000000000000
  if seconds < least then least else seconds

/-- A number of occurrences per second of the experiment. -/
def perSecond (report : Report) (count : Nat) : String :=
  Decimal.fixed 1 (Float.ofNat count / report.seconds)

/-- The line on the consistency of windows, if any was evaluated. -/
def consistencyLines (report : Report) : List String :=
  match report.consistentRate? with
  | some rate => ["Consistent Rate: " ++ Decimal.fixed 4 rate]
  | none => []

/-- The lines of a report. The rate of updates is left out if there is no pause between them, and
repetitions are reported only where the protocol has any. -/
def lines (report : Report) : List String :=
  ["Method: " ++ report.mode.name,
    "Window: " ++ report.window.render,
    "Events: " ++ toString report.purchases,
    "Results: " ++ toString report.results,
    "Elapsed: " ++ Decimal.fixed 3 report.seconds ++ " secs"] ++
  (if report.updateInterval = 0 then [] else
    ["Update Rate: " ++
      Decimal.fixed 1 (1 / secondsOfNanoseconds report.updateInterval) ++ " qps"]) ++
  ["Query Throughput: " ++ report.perSecond report.purchases ++ " tps",
    "Update Throughput: " ++ report.perSecond report.updates ++ " qps"] ++
  (if report.mode = .optimistic then
    ["Redo: " ++ toString report.redoCount ++ " times"]
  else
    []) ++
  report.consistencyLines ++
  ["Steps: " ++ toString report.metrics.steps ++ " (" ++ toString report.metrics.idleSteps ++
    " idle), Commits: " ++ toString report.metrics.commits ++ ", Transactions: " ++
    toString report.metrics.afterCommits]

/-- The text of a report. -/
def render (report : Report) : String :=
  "\n".intercalate report.lines

end Report

end StreamQuery
