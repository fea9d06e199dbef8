import StreamQuery.Control.Mode

/-!
# Steps

What one evaluation of an operator reports to the scheduler, and the part that an operator has in
concurrency control.
-/

namespace StreamQuery

/-- What happened when an operator was evaluated. -/
inductive Step where
  /-- No input was available. -/
  | idle
  /-- Input was consumed without a result. -/
  | noOutput
  /-- Tuples were sent on. -/
  | emitted (count : Nat)
  /-- A window with mixed relation versions was discarded. Windows completed before it in the same
  evaluation were committed up to a mark. -/
  | lostConsistency (committed? : Option Int)
  /-- Windows were committed; input from before the mark is no longer needed. -/
  | commit (mark : Int)
  /-- The last commit is closed, and a tuple with this low-water mark waits. -/
  | pendingAbort (waiting : Int)
  deriving DecidableEq

/-- Whether a step calls for the scheduler to act. -/
def Step.isSignal : Step → Bool
  | idle => false
  | noOutput => false
  | emitted _ => false
  | lostConsistency _ => true
  | commit _ => true
  | pendingAbort _ => true

/-- The part of an operator in concurrency control. -/
structure CommitRole where
  /-- Windows with mixed versions are discarded. -/
  checksConsistency : Bool
  /-- Completed windows are reported as commits. -/
  signalsCommit : Bool
  /-- A commit stays open until the next input arrives. -/
  defersClose : Bool
  deriving DecidableEq

/-- The part that a mode gives to an operator, which may be the commit operator. -/
def CommitRole.of (mode : Mode) (isCommitOperator : Bool) : CommitRole where
  checksConsistency := isCommitOperator && mode = .optimistic
  signalsCommit := isCommitOperator && mode ≠ .uncontrolled
  defersClose := isCommitOperator && mode.isPessimistic

end StreamQuery
