import StreamQuery.Engine.Trace

/-!
# Deployments

A deployment is a query that was accepted, with the tree and the configuration that it runs with.
All runs start from its declarations, so what holds of every deployment holds of every query that
can be run.
-/

namespace StreamQuery

/-- A query that has been built, planned and scheduled. -/
structure Deployment where
  /-- What the query was built from. -/
  declarations : List Declaration
  /-- The query. -/
  query : Query
  /-- The name of the root operator. -/
  root : String
  /-- The tree of the root operator. -/
  tree : QueryTree
  /-- The choices of the scheduler. -/
  config : SchedulerConfig
  /-- The fixed decisions of the scheduler. -/
  schedule : Schedule
  /-- The declarations make the query. -/
  built : Query.ofDeclarations declarations = .ok query
  /-- The root operator is one of the query. -/
  planned : query.plan root = .ok tree
  /-- The tree can be scheduled. -/
  scheduled : Schedule.ofTree tree config = .ok schedule

namespace Deployment

/-- Builds, plans and schedules a query. -/
def ofDeclarations? (declarations : List Declaration) (root : String) (config : SchedulerConfig) :
    Option Deployment :=
  match built : Query.ofDeclarations declarations with
  | .error _ => none
  | .ok query =>
    match planned : query.plan root with
    | .error _ => none
    | .ok tree =>
      match scheduled : Schedule.ofTree tree config with
      | .error _ => none
      | .ok schedule =>
        some { declarations, query, root, tree, config, schedule, built, planned, scheduled }

/-- The state at the start. -/
def start (deployment : Deployment) : Execution :=
  deployment.schedule.start deployment.query deployment.config

/-- The state after some actions. -/
def run (deployment : Deployment) (actions : List Action) : Execution :=
  deployment.schedule.performAll deployment.start actions

/-- The evaluations during some actions. -/
def trace (deployment : Deployment) (actions : List Action) : List Firing :=
  deployment.schedule.trace deployment.start actions

/-- The tuples that an operator sends on during some actions. -/
def sentBy (deployment : Deployment) (id : Nat) (actions : List Action) : List Tuple :=
  Firing.sentBy id (deployment.trace actions)

end Deployment

end StreamQuery
