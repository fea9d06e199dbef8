import StreamQuery.Control.Mode

/-!
# Scheduler configuration

The choices that a schedule is built from. Counts below one are raised to one.
-/

namespace StreamQuery

/-- The order in which operators are evaluated. -/
inductive SchedulingPolicy where
  /-- One operator after the other, inputs before their consumers. -/
  | roundRobin
  deriving DecidableEq

/-- The name of a scheduling policy. -/
def SchedulingPolicy.label : SchedulingPolicy → String
  | roundRobin => "RoundRobin"

/-- How a query is to be scheduled. -/
structure SchedulerConfig where
  /-- The concurrency control protocol. -/
  mode : Mode
  /-- The number of commits that make up one pessimistic transaction. -/
  jointCount : Nat
  /-- The number of evaluations in one wake-up. -/
  batchCount : Nat
  /-- The order of evaluation. -/
  policy : SchedulingPolicy
  /-- A transaction has at least one commit. -/
  jointCount_pos : 0 < jointCount
  /-- A wake-up has at least one evaluation. -/
  batchCount_pos : 0 < batchCount

namespace SchedulerConfig

/-- A configuration from the choices that were made, with defaults for the others. -/
def ofChoices (mode? : Option Mode) (jointCount? batchCount? : Option Nat)
    (policy? : Option SchedulingPolicy) : SchedulerConfig where
  mode := mode?.getD .uncontrolled
  jointCount := max (jointCount?.getD 1) 1
  batchCount := max (batchCount?.getD 1) 1
  policy := policy?.getD .roundRobin
  jointCount_pos := by omega
  batchCount_pos := by omega

/-- The default configuration of a mode. -/
def ofMode (mode : Mode) : SchedulerConfig :=
  ofChoices (some mode) none none none

end SchedulerConfig

end StreamQuery
