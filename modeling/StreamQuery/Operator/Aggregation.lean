import StreamQuery.Operator.Error
import StreamQuery.Operator.Step
import StreamQuery.Window.Synopsis

/-!
# Aggregation

An aggregation computes one tuple from each completed window: the mean of an attribute, or a copy of
the newest tuple. As the commit operator it also decides which windows are committed.
-/

namespace StreamQuery

/-- What is computed from a window. -/
inductive AggregateFunction where
  /-- The mean of the attribute at a position. -/
  | mean (index : Nat)
  /-- The values of the newest tuple. -/
  | election
  deriving DecidableEq

namespace AggregateFunction

/-- Adds the value of a tuple, as a double, to a sum. -/
def addValue (index : Nat) (sum : Value) (tuple : Tuple) : Except OperatorError Value :=
  match tuple.value? index with
  | none => .error (.unknownPosition index)
  | some value => (value.toFloat >>= sum.add).mapError .operation

/-- The values computed from the tuples of a window. -/
def compute : AggregateFunction → Contents → Except OperatorError (List Value)
  | mean index, contents => do
    let sum ← contents.tuples.foldlM (addValue index) (.float 0)
    let count := Value.float (Float.ofNat contents.tuples.length)
    let quotient ← (sum.divide count).mapError .operation
    return [quotient]
  | election, contents =>
    match contents.newest? with
    | some newest => .ok newest.values
    | none => .error .emptyWindow

/-- The tuple computed from a window. It arrives with the newest tuple of the window, and its
low-water mark is the smallest of the window. -/
def apply (function : AggregateFunction) (schema : Schema) (contents : Contents) :
    Except OperatorError Tuple := do
  let values ← function.compute contents
  let lowWater := contents.lowWater?.getD 0
  return {
    kind := .data
    schema
    values
    arrival := contents.highWater?.getD lowWater
    lowWater
    stamps := .unions (contents.tuples.map Tuple.stamps)
    lineage := .window (contents.tuples.map Tuple.lineage) }

end AggregateFunction

/-- Why the evaluation of completed windows stopped before the last one. -/
inductive Interruption where
  /-- A window had mixed relation versions. -/
  | lostConsistency
  /-- The result of a window could not be computed. -/
  | failed (error : OperatorError)

/-- The outcome of evaluating completed windows. -/
structure Evaluation where
  /-- The number of windows looked at. -/
  evaluated : Nat := 0
  /-- The number of those that were consistent. -/
  consistent : Nat := 0
  /-- The results, in the order of the windows. -/
  results : List Tuple := []
  /-- The mark of the last window with a result. -/
  mark? : Option Int := none
  /-- Why later windows were not looked at. -/
  interruption? : Option Interruption := none

namespace Evaluation

/-- Evaluates completed windows in order, up to the first that fails or, if consistency is checked,
has mixed versions. -/
def ofWindows (compute : Contents → Except OperatorError Tuple) (checksConsistency : Bool) :
    List Contents → Evaluation
  | [] => {}
  | window :: windows =>
    let consistent := if window.isConsistent then 1 else 0
    if checksConsistency && !window.isConsistent then
      { evaluated := 1, consistent, interruption? := some .lostConsistency }
    else
      match compute window with
      | .error error => { evaluated := 1, consistent, interruption? := some (.failed error) }
      | .ok result =>
        let later := ofWindows compute checksConsistency windows
        { evaluated := 1 + later.evaluated
          consistent := consistent + later.consistent
          results := result :: later.results
          mark? := later.mark?.or (some window.mark)
          interruption? := later.interruption? }

end Evaluation

/-- What an aggregation remembers. -/
structure Aggregation where
  /-- The buffered input. -/
  synopsis : Synopsis
  /-- Whether the last commit is still open. -/
  pendingCommit : Bool := false
  /-- The number of windows evaluated so far. -/
  evaluated : Nat := 0
  /-- The number of those that were consistent. -/
  consistent : Nat := 0
  /-- The number of results so far. -/
  emitted : Nat := 0

namespace Aggregation

/-- The share of evaluated windows that were consistent. -/
def consistentRate? (aggregation : Aggregation) : Option Float :=
  if aggregation.evaluated = 0 then none
  else some (Float.ofNat aggregation.consistent / Float.ofNat aggregation.evaluated)

/-- Forgets the buffered input and an open commit. The counters stay. -/
def reset (aggregation : Aggregation) : Aggregation :=
  { aggregation with synopsis := aggregation.synopsis.reset, pendingCommit := false }

/-- The step that an evaluation amounts to for an operator with a part in concurrency control. -/
def stepOf (role : CommitRole) (evaluation : Evaluation) : Except OperatorError Step :=
  match evaluation.interruption? with
  | some (.failed error) => .error error
  | some .lostConsistency =>
    .ok (.lostConsistency (if role.signalsCommit then evaluation.mark? else none))
  | none =>
    match evaluation.mark? with
    | some mark =>
      .ok (if role.signalsCommit then .commit mark else .emitted evaluation.results.length)
    | none => .ok .noOutput

/-- Whether a step opens a commit that waits for the next input. -/
def opensCommit (role : CommitRole) : Except OperatorError Step → Bool
  | .ok (.commit _) => role.defersClose
  | _ => false

/-- Accepts a tuple: the aggregation afterwards, its results, and the step that they amount to. -/
def accept (aggregation : Aggregation) (function : AggregateFunction) (schema : Schema)
    (role : CommitRole) (tuple : Tuple) :
    Aggregation × List Tuple × Except OperatorError Step :=
  let (synopsis, windows) := aggregation.synopsis.enqueue tuple
  let evaluation := Evaluation.ofWindows (function.apply schema) role.checksConsistency windows
  let step := stepOf role evaluation
  ({ synopsis
     pendingCommit := aggregation.pendingCommit || opensCommit role step
     evaluated := aggregation.evaluated + evaluation.evaluated
     consistent := aggregation.consistent + evaluation.consistent
     emitted := aggregation.emitted + evaluation.results.length },
    evaluation.results, step)

end Aggregation

end StreamQuery
