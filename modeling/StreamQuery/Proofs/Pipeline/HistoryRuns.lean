import StreamQuery.Proofs.Pipeline.Runs

/-!
# Histories of runs

What all changes of a pipeline under optimistic control keep holds throughout a run.
-/

namespace StreamQuery

namespace Pipeline

variable {pipeline : Pipeline} {deployment : Deployment} {loading actions : List Action}
  {motive : List Tuple → List Tuple → Line → Prop}

/-- An action keeps a property of the arrivals, the results and the line. -/
theorem History.perform {execution : Execution} {relation : Relation} {log : List Firing}
    {action : Action} {arrived : List Tuple}
    (history : pipeline.History (motive arrived) log execution.world)
    (runs : pipeline.RunsIn deployment)
    (found : execution.world.relation? pipeline.reference.place = some relation)
    (id_eq : relation.id = pipeline.reference.place)
    (access : execution.world.catalog.access.mode = .optimistic)
    (action_allowed : pipeline.Allows action)
    (upheld : pipeline.Upholds relation.snapshot (motive arrived))
    (arrive : ∀ tuple results line, arrivalsAt pipeline.source.id [action] = [tuple] →
      motive arrived results line →
      motive (arrived ++ [tuple]) results { line with arrivals := line.arrivals ++ [tuple] }) :
    pipeline.History (motive (arrived ++ arrivalsAt pipeline.source.id [action]))
      (log ++ deployment.schedule.actionFirings execution action)
      (deployment.schedule.perform execution action).world := by
  have places := runs.plannedIn.isPlan.hasPlaces
  cases action with
  | arrive source tuple =>
      obtain rfl : source = pipeline.source.id := action_allowed
      have arrived_now := arrivalsAt_arrive pipeline.source.id tuple
      rw [arrived_now, Schedule.actionFirings_of_external _ _ id, List.append_nil]
      obtain ⟨line, shows_line, holds⟩ := history
      exact ⟨_, shows_line.arrive places tuple, arrive _ _ _ arrived_now holds⟩
  | load place row => exact action_allowed.elim
  | update place change =>
      rw [arrivalsAt_of_no_arrival rfl, Schedule.actionFirings_of_external _ _ id,
        List.append_nil, List.append_nil]
      exact history.of_cells_eq rfl
  | collect operator =>
      obtain rfl : operator = pipeline.mean.id := action_allowed
      rw [arrivalsAt_of_no_arrival rfl, Schedule.actionFirings_of_external _ _ id,
        List.append_nil, List.append_nil]
      obtain ⟨line, shows_line, holds⟩ := history
      exact ⟨_, shows_line.collect places, upheld.collect _ _ holds []⟩
  | setBatchCount count =>
      rw [arrivalsAt_of_no_arrival rfl, Schedule.actionFirings_of_external _ _ id,
        List.append_nil, List.append_nil]
      exact history
  | wakeUp =>
      rw [arrivalsAt_of_no_arrival rfl, List.append_nil]
      exact upheld.turn runs found id_eq access history

/-- A property of the arrivals, the results and the line that holds at the start and survives all
changes holds throughout a run. -/
theorem history_of_run (runs : pipeline.RunsIn deployment)
    (changes : ∀ action ∈ loading, action.ChangesRelations)
    (allowed : ∀ action ∈ actions, pipeline.Allows action)
    (start : motive [] []
      { arrivals := []
        passed := { isProtected := true }
        matched := []
        buffer := .ofWindow pipeline.window
        results := [] })
    (arrive : ∀ arrived tuple results line,
      arrived ++ [tuple] <+: arrivalsAt pipeline.source.id actions → motive arrived results line →
      motive (arrived ++ [tuple]) results { line with arrivals := line.arrivals ++ [tuple] })
    (upholds : ∀ earlier, earlier <+: actions → ∀ relation,
      (deployment.run (loading ++ earlier)).world.relation? pipeline.reference.place =
        some relation →
      pipeline.Upholds relation.snapshot (motive (arrivalsAt pipeline.source.id earlier)))
    {earlier : List Action} (is_earlier : earlier <+: actions) :
    pipeline.History (motive (arrivalsAt pipeline.source.id earlier))
      (deployment.trace (loading ++ earlier)) (deployment.run (loading ++ earlier)).world := by
  induction earlier using List.reverseRecOn with
  | nil =>
      obtain ⟨cells_eq, _, trace_eq⟩ :=
        Schedule.performAll_of_changesRelations changes deployment.start
      rw [List.append_nil, Deployment.trace, trace_eq]
      exact ⟨_, (Shows.start runs.plannedIn runs.controlled).of_cells_eq cells_eq, start⟩
  | append_singleton earlier action induction =>
      have is_before : earlier <+: actions := (List.prefix_append _ _).trans is_earlier
      obtain ⟨declared, declared_eq, _⟩ := deployment.isTyped runs.plannedIn.isPlan.mem_postOrder.1
      obtain ⟨relation, found, id_eq, _⟩ :=
        Deployment.run_relation? declared_eq (loading ++ earlier)
      have arrivals_prefix : arrivalsAt pipeline.source.id (earlier ++ [action]) <+:
          arrivalsAt pipeline.source.id actions := is_earlier.filterMap _
      rw [arrivalsAt_append] at arrivals_prefix ⊢
      rw [← List.append_assoc, Deployment.trace_append_singleton, Deployment.run_append_singleton]
      refine (induction is_before).perform runs found id_eq
        ((deployment.run_mode (loading ++ earlier)).trans runs.mode_eq)
        (allowed action (is_earlier.subset (by simp)))
        (upholds earlier is_before relation found)
        fun tuple results line arrived_now holds => arrive _ _ _ _ ?_ holds
      rwa [← arrived_now]

end Pipeline

end StreamQuery
