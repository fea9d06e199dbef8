import StreamQuery.Proofs.Pipeline.Attempts

/-!
# Attempts of runs

Under optimistic control the attempts of a mean over windows of time are accounted for throughout a
run: the scheduler has counted those that have ended, and no evaluation fails.
-/

namespace StreamQuery

namespace Pipeline

variable {pipeline : Pipeline} {deployment : Deployment} {shown : Snapshot → Prop}
  {arrived : List Tuple} {log : List Firing} {execution : Execution} {ended : List Attempt}
  {stage : Stage} {relation : Relation} {loading actions : List Action}

/-- A part of a run after some attempts, at a stage of the next one. -/
structure Records (pipeline : Pipeline) (shown : Snapshot → Prop) (arrived : List Tuple)
    (log : List Firing) (execution : Execution) (ended : List Attempt) (stage : Stage) : Prop where
  is_at : pipeline.IsAt execution.world stage
  retries : pipeline.Retries shown arrived (pipeline.results log) ended stage
  /-- The attempts that have ended were counted. -/
  counted : execution.metrics.redoCount = ended.length

/-- A part of a run whose attempts are accounted for. -/
def IsRecorded (pipeline : Pipeline) (shown : Snapshot → Prop) (arrived : List Tuple)
    (log : List Firing) (execution : Execution) : Prop :=
  ∃ ended stage, pipeline.Records shown arrived log execution ended stage

/-! ## Turns -/

/-- Every operator succeeds. -/
theorem Records.evaluate
    (records : pipeline.Records shown arrived log execution ended stage)
    (plan : pipeline.IsPlanOf deployment) (mode : deployment.config.mode = .optimistic)
    (spans : pipeline.window.kind = .time)
    (found : execution.world.relation? pipeline.reference.place = some relation)
    (access : execution.world.catalog.access.mode = .optimistic)
    (setting : pipeline.Setting shown arrived relation) {operator : QueryTree}
    (member : operator ∈ deployment.schedule.order) :
    ∃ step,
      (execution.world.evaluate (deployment.schedule.role operator.id) operator).2 = .ok step ∧
        pipeline.GoesOn shown arrived
          (pipeline.results (log ++ [deployment.schedule.fire operator execution.world])) ended
          (execution.world.evaluate (deployment.schedule.role operator.id) operator).1 step := by
  obtain ⟨is_at, retries, _⟩ := records
  have places := plan.hasPlaces
  rw [plan.order_eq] at member
  simp only [List.mem_cons, List.not_mem_nil, or_false] at member
  rcases member with rfl | rfl | rfl
  · obtain ⟨step, after, evaluated, quiet, moves, next⟩ :=
      is_at.evaluate_stream places
        (deployment.schedule.role pipeline.stream.id)
    refine ⟨step, evaluated, ?_⟩
    rw [results_append_of_ne deployment log (show pipeline.stream.id ≠ _ from
      places.source_ne_mean)]
    exact retries.goesOn_of_quiet moves quiet next
  · obtain ⟨step, after, evaluated, quiet, moves, next⟩ :=
      is_at.evaluate_matching places (deployment.schedule.role pipeline.matching.id) found access
        setting fun input waits => retries.inputs_sublist.subset (by
          simp [Stage.inputs, Stage.passedOn, waits])
    refine ⟨step, evaluated, ?_⟩
    rw [results_append_of_ne deployment log (show pipeline.matching.id ≠ _ from
      places.combine_ne_mean)]
    exact retries.goesOn_of_quiet moves quiet next
  · have role_eq : deployment.schedule.role pipeline.mean.id = .of .optimistic true := by
      rw [plan.role_mean, mode]
    obtain ⟨step, sent, evaluated, queue_eq, goes_on⟩ :=
      retries.evaluate_tree is_at places role_eq setting spans
    refine ⟨step, evaluated, ?_⟩
    rw [results_append_of_queue_eq deployment log queue_eq]
    exact goes_on

/-- The scheduler responds to an evaluation. -/
theorem GoesOn.react {after : World} {step : Step} {later : List Firing}
    (goes_on : pipeline.GoesOn shown arrived (pipeline.results later) ended after step)
    (plan : pipeline.IsPlanOf deployment) (mode : deployment.config.mode = .optimistic)
    (counted : execution.metrics.redoCount = ended.length) :
    pipeline.IsRecorded shown arrived later
      (deployment.schedule.react (({ execution with world := after }).countStep step) step) := by
  have controlled : deployment.config.mode ≠ .uncontrolled := by
    rw [mode]
    exact Mode.noConfusion
  obtain ⟨next, ended', is_at, length_eq, retries⟩ := goes_on
  rw [Schedule.react_of_optimistic (deployment.mode_eq.trans mode)]
  have responded : pipeline.IsAt (deployment.schedule.reactOptimistically
      (({ execution with world := after }).countStep step) step).world (next.respond step) :=
    is_at.respond (plan.isRedoneBy controlled) step
  refine ⟨ended', _, responded, retries, ?_⟩
  rw [Schedule.reactOptimistically_redoCount, length_eq, ← counted]
  rfl

/-- A turn of the scheduler keeps account of the attempts. -/
theorem IsRecorded.turn (recorded : pipeline.IsRecorded shown arrived log execution)
    (plan : pipeline.IsPlanOf deployment) (mode : deployment.config.mode = .optimistic)
    (spans : pipeline.window.kind = .time)
    (found : execution.world.relation? pipeline.reference.place = some relation)
    (access : execution.world.catalog.access.mode = .optimistic)
    (setting : pipeline.Setting shown arrived relation) :
    pipeline.IsRecorded shown arrived (log ++ deployment.schedule.firings execution)
      (deployment.schedule.wakeUp execution).1 := by
  have maintains : deployment.schedule.Maintains (fun _ => False) fun log following =>
      pipeline.IsRecorded shown arrived log following ∧
        following.world.catalog = execution.world.catalog := by
    refine ⟨fun log following holds => ⟨?_, holds.2⟩,
      fun log following operator after error member holds evaluated => ?_,
      fun log following operator after step member holds evaluated => ?_,
      fun _ _ _ impossible => impossible.elim⟩
    · obtain ⟨ended, stage, records⟩ := holds.1
      exact ⟨ended, stage, records.is_at, records.retries, records.counted⟩
    · obtain ⟨⟨ended, stage, records⟩, same⟩ := holds
      obtain ⟨step, succeeds, _⟩ := records.evaluate plan mode spans
        (by rw [World.relation?, same]; exact found) (by rw [same]; exact access) setting member
      rw [evaluated] at succeeds
      cases succeeds
    · obtain ⟨⟨ended, stage, records⟩, same⟩ := holds
      have following_access : following.world.catalog.access.mode = .optimistic := by
        rw [same]
        exact access
      have kept : (deployment.schedule.react (({ following with world := after }).countStep step)
          step).world.catalog = following.world.catalog :=
        Schedule.react_catalog_of_evaluate (deployment.mode_eq.trans mode) following_access
          evaluated rfl
      obtain ⟨expected, succeeds, goes_on⟩ := records.evaluate plan mode spans
        (by rw [World.relation?, same]; exact found) following_access setting member
      rw [evaluated] at succeeds goes_on
      obtain rfl : step = expected := Except.ok.inj succeeds
      exact ⟨goes_on.react plan mode records.counted, kept.trans same⟩
  exact (maintains.turn ⟨recorded, rfl⟩).1

/-! ## Other actions -/

theorem IsAt.frame {world after : World} (is_at : pipeline.IsAt world stage)
    (memory_eq : ∀ id, after.memory? id = world.memory? id)
    (output_eq : ∀ id, id ≠ pipeline.mean.id → after.output id = world.output id)
    (places : pipeline.HasPlaces) : pipeline.IsAt after stage where
  source := by rw [memory_eq]; exact is_at.source
  passed := by rw [output_eq _ places.source_ne_mean, is_at.passed]
  stateless := by rw [memory_eq, is_at.stateless]
  waiting := by rw [output_eq _ places.combine_ne_mean, is_at.waiting]
  mean := by rw [memory_eq]; exact is_at.mean

theorem IsAt.of_cells_eq {world after : World} (is_at : pipeline.IsAt world stage)
    (cells_eq : after.cells = world.cells) (places : pipeline.HasPlaces) :
    pipeline.IsAt after stage := by
  refine is_at.frame (fun id => ?_) (fun id _ => ?_) places
  · rw [World.memory?, World.memory?, cells_eq]
  · rw [World.output, World.output, cells_eq]

theorem IsAt.arrive {world : World} (is_at : pipeline.IsAt world stage)
    (places : pipeline.HasPlaces) (tuple : Tuple) :
    pipeline.IsAt (world.modifyArrivals pipeline.source.id (·.enqueue tuple))
      { stage with arriving := stage.arriving ++ [tuple] } := by
  have memory_of_ne {id : Nat} (different : id ≠ pipeline.source.id) :=
    World.memory?_modifyArrivals_of_ne world pipeline.source.id (·.enqueue tuple) different
  obtain ⟨arrivals, remembered, arriving⟩ := is_at.source
  exact {
    source := ⟨_, World.memory?_modifyArrivals_self _ _ _ remembered,
      congrArg (· ++ [tuple]) arriving⟩
    passed := by rw [World.output_modifyArrivals, is_at.passed]
    stateless := by rw [memory_of_ne places.source_ne_combine.symm, is_at.stateless]
    waiting := by rw [World.output_modifyArrivals, is_at.waiting]
    mean := by rw [memory_of_ne places.source_ne_mean.symm]; exact is_at.mean }

/-- An action keeps account of the attempts. -/
theorem IsRecorded.perform (recorded : pipeline.IsRecorded shown arrived log execution)
    (plan : pipeline.IsPlanOf deployment) (mode : deployment.config.mode = .optimistic)
    (spans : pipeline.window.kind = .time)
    (found : execution.world.relation? pipeline.reference.place = some relation)
    (access : execution.world.catalog.access.mode = .optimistic)
    (setting : pipeline.Setting shown arrived relation) {action : Action}
    (allowed : pipeline.Allows action) :
    pipeline.IsRecorded shown (arrived ++ pipeline.inputs [action])
      (log ++ deployment.schedule.actionFirings execution action)
      (deployment.schedule.perform execution action) := by
  have places := plan.hasPlaces
  have no_input (none_arrives : arrivalsAt pipeline.source.id [action] = []) :
      arrived ++ pipeline.inputs [action] = arrived := by
    rw [inputs, none_arrives, dataOf_nil, List.append_nil]
  cases action with
  | arrive source tuple =>
      obtain rfl : source = pipeline.source.id := allowed
      rw [inputs, arrivalsAt_arrive, Schedule.actionFirings_of_external _ _ id, List.append_nil]
      obtain ⟨ended, stage, records⟩ := recorded
      refine ⟨_, _, records.is_at.arrive places tuple, records.retries.arrive tuple, ?_⟩
      rw [List.length_map]
      exact records.counted
  | load place row => exact allowed.elim
  | update place change =>
      rw [no_input (arrivalsAt_of_no_arrival rfl), Schedule.actionFirings_of_external _ _ id,
        List.append_nil]
      obtain ⟨ended, stage, records⟩ := recorded
      exact ⟨ended, stage, records.is_at.of_cells_eq rfl places, records.retries, records.counted⟩
  | collect operator =>
      obtain rfl : operator = pipeline.mean.id := allowed
      rw [no_input (arrivalsAt_of_no_arrival rfl), Schedule.actionFirings_of_external _ _ id,
        List.append_nil]
      obtain ⟨ended, stage, records⟩ := recorded
      refine ⟨ended, stage, records.is_at.frame
        (World.memory?_modifyOutput execution.world pipeline.mean.id · Channel.clear)
        (fun id different => ?_) places, records.retries, records.counted⟩
      exact World.output_modifyCell_of_ne execution.world different _
  | setBatchCount count =>
      rw [no_input (arrivalsAt_of_no_arrival rfl), Schedule.actionFirings_of_external _ _ id,
        List.append_nil]
      obtain ⟨ended, stage, records⟩ := recorded
      exact ⟨ended, stage, records.is_at, records.retries, records.counted⟩
  | wakeUp =>
      rw [no_input (arrivalsAt_of_no_arrival rfl)]
      exact recorded.turn plan mode spans found access setting

/-! ## Runs -/

theorem redoCount_of_changesRelations {schedule : Schedule}
    (changes : ∀ action ∈ actions, action.ChangesRelations) (execution : Execution) :
    (schedule.performAll execution actions).metrics.redoCount = execution.metrics.redoCount := by
  induction actions generalizing execution with
  | nil => rfl
  | cons action actions induction =>
      have unchanged : (schedule.perform execution action).metrics = execution.metrics := by
        have action_changes := changes action List.mem_cons_self
        cases action <;> first | rfl | cases action_changes
      refine (induction (fun later member => changes later (List.mem_cons_of_mem _ member))
        (schedule.perform execution action)).trans ?_
      rw [unchanged]

/-- At the start there are no inputs, and the stream is backed up. -/
theorem IsAt.start (plan : pipeline.IsPlanOf deployment)
    (controlled : deployment.config.mode ≠ .uncontrolled) :
    pipeline.IsAt deployment.start.world {} := by
  have found (operator : QueryTree) (member : operator ∈ deployment.tree.postOrder) :=
    deployment.getElem?_start member
  rw [← deployment.order_eq, plan.order_eq, plan.replaysArea] at found
  have source_found := found pipeline.stream (by simp)
  have combine_found := found pipeline.matching (by simp)
  refine {
    source := ⟨{}, World.memory?_of_getElem? source_found, rfl⟩
    passed := ?_
    stateless := World.memory?_of_getElem? combine_found
    waiting := congrArg Channel.queue (World.output_of_getElem? combine_found)
    mean := ⟨_, World.memory?_of_getElem? (found pipeline.tree (by simp)), rfl, rfl⟩ }
  have output_eq : deployment.start.world.output pipeline.source.id =
      { isProtected := decide (pipeline.source.id ∈ deployment.schedule.redo.streams) } :=
    World.output_of_getElem? source_found
  rw [output_eq, decide_eq_true (plan.isRedoneBy controlled).source_mem_streams]

theorem Retries.start : pipeline.Retries shown [] [] [] {} where
  taken := .nil
  waiting := .nil
  keeps := .all
  retries := .first
  means := .nil

/-- Throughout a run the attempts are accounted for. -/
theorem isRecorded_of_run (plan : pipeline.IsPlanOf deployment)
    (mode : deployment.config.mode = .optimistic) (spans : pipeline.window.kind = .time)
    (changes : ∀ action ∈ loading, action.ChangesRelations)
    (allowed : ∀ action ∈ actions, pipeline.Allows action)
    (feeds : pipeline.Feeds (pipeline.inputs actions))
    (served : pipeline.IsServed deployment loading actions) {earlier : List Action}
    (is_earlier : earlier <+: actions) :
    pipeline.IsRecorded (pipeline.Shown deployment loading actions) (pipeline.inputs earlier)
      (deployment.trace (loading ++ earlier)) (deployment.run (loading ++ earlier)) := by
  induction earlier using List.reverseRecOn with
  | nil =>
      obtain ⟨cells_eq, _, trace_eq⟩ :=
        Schedule.performAll_of_changesRelations changes deployment.start
      have controlled : deployment.config.mode ≠ .uncontrolled := by
        rw [mode]
        exact Mode.noConfusion
      rw [List.append_nil, Deployment.trace, trace_eq]
      exact ⟨[], {}, (IsAt.start plan controlled).of_cells_eq cells_eq plan.hasPlaces,
        .start, redoCount_of_changesRelations changes deployment.start⟩
  | append_singleton earlier action induction =>
      have is_before : earlier <+: actions := (List.prefix_append _ _).trans is_earlier
      obtain ⟨declared, declared_eq, _⟩ := deployment.isTyped plan.mem_postOrder.1
      obtain ⟨relation, found, _⟩ := Deployment.run_relation? declared_eq (loading ++ earlier)
      rw [inputs_append, ← List.append_assoc, Deployment.trace_append_singleton,
        Deployment.run_append_singleton]
      exact (induction is_before).perform plan mode spans found
        ((deployment.run_mode (loading ++ earlier)).trans mode)
        (setting_of_served plan allowed feeds served is_before found)
        (allowed action (is_earlier.subset (by simp)))

end Pipeline

end StreamQuery
