import StreamQuery.Proofs.Pipeline.Results
import StreamQuery.Proofs.Pipeline.Steps

/-!
# Histories of pipelines

Under optimistic control, the line of a pipeline changes in a few ways only. What they all keep, of
the results that were sent and of the line, holds throughout a run, and no evaluation fails.
-/

namespace StreamQuery

namespace Pipeline

/-- The data results that a pipeline has sent. -/
def results (pipeline : Pipeline) (log : List Firing) : List Tuple :=
  dataOf (Firing.sentBy pipeline.mean.id log)

variable {pipeline : Pipeline} {deployment : Deployment} {log : List Firing} {world : World}

/-! ## Results of a log -/

theorem results_append_of_ne (deployment : Deployment) (log : List Firing) {operator : QueryTree}
    (different : operator.id ≠ pipeline.mean.id) (world : World) :
    pipeline.results (log ++ [deployment.schedule.fire operator world]) = pipeline.results log :=
  congrArg dataOf (Firing.sentBy_append_of_ne log different)

/-- What the mean adds to its output is what it has sent. -/
theorem results_append_of_queue_eq (deployment : Deployment) (log : List Firing)
    {sent : List Tuple}
    (queue_eq : ((world.evaluate (deployment.schedule.role pipeline.mean.id)
        pipeline.tree).1.output pipeline.mean.id).queue =
      (world.output pipeline.mean.id).queue ++ sent) :
    pipeline.results (log ++ [deployment.schedule.fire pipeline.tree world]) =
      pipeline.results log ++ dataOf sent := by
  have sent_eq : (deployment.schedule.fire pipeline.tree world).sent = sent := by
    change ((world.evaluate (deployment.schedule.role pipeline.mean.id) pipeline.tree).1.output
      pipeline.mean.id).queue.drop (world.output pipeline.mean.id).queue.length = sent
    rw [queue_eq, List.drop_left]
  have sends := Firing.sentBy_append_self log (deployment.schedule.fire pipeline.tree world)
  rw [sent_eq] at sends
  exact (congrArg dataOf sends).trans (dataOf_append _ _)

theorem results_append (deployment : Deployment) {line after : Line} {sent : List Tuple}
    (log : List Firing) {wasOpen isOpen : Bool}
    (shows_before : pipeline.Shows world line wasOpen)
    (shows_after : pipeline.Shows
      (world.evaluate (deployment.schedule.role pipeline.mean.id) pipeline.tree).1 after isOpen)
    (results_eq : after.results = line.results ++ sent) :
    pipeline.results (log ++ [deployment.schedule.fire pipeline.tree world]) =
      pipeline.results log ++ dataOf sent := by
  obtain ⟨cell, found, queue_eq, _⟩ := shows_before.mean
  obtain ⟨after_cell, after_found, after_queue, _⟩ := shows_after.mean
  refine results_append_of_queue_eq deployment log ?_
  rw [World.output_of_getElem? after_found, after_queue, results_eq,
    World.output_of_getElem? found, queue_eq]

theorem results_append_of_no_data (deployment : Deployment) {line after : Line} {sent : List Tuple}
    (log : List Firing) {wasOpen isOpen : Bool}
    (shows_before : pipeline.Shows world line wasOpen)
    (shows_after : pipeline.Shows
      (world.evaluate (deployment.schedule.role pipeline.mean.id) pipeline.tree).1 after isOpen)
    (results_eq : after.results = line.results ++ sent) (no_data : dataOf sent = []) :
    pipeline.results (log ++ [deployment.schedule.fire pipeline.tree world]) =
      pipeline.results log := by
  rw [results_append deployment log shows_before shows_after results_eq, no_data, List.append_nil]

/-! ## What changes of a line keep -/

/-- A property of the results so far and of the line that survives all changes under optimistic
control while the relation shows one version. -/
structure Upholds (pipeline : Pipeline) (snapshot : Snapshot)
    (motive : List Tuple → Line → Prop) : Prop where
  /-- It does not matter which results wait to be collected. -/
  collect : ∀ results line, motive results line → ∀ waiting,
    motive results { line with results := waiting }
  /-- The stream passes an arrival on. -/
  pass : ∀ results line tuple rest, motive results line → line.arrivals = tuple :: rest →
    motive results { line with arrivals := rest, passed := line.passed.enqueue tuple }
  /-- The match sends a marker on. -/
  match_marker : ∀ results line tuple rest, motive results line →
    line.passed.queue = tuple :: rest → tuple.isEndOfStream = true →
    motive results
      { line with
        passed := { line.passed with queue := rest }
        matched := line.matched ++ [tuple] }
  /-- The match sends on what it joins data to. -/
  match_data : ∀ results line tuple rest, motive results line →
    line.passed.queue = tuple :: rest → tuple.isEndOfStream = false →
    ∃ found, matchSnapshot pipeline.condition pipeline.combine.schema pipeline.reference.place
        snapshot tuple = .ok found ∧
      motive results
        { line with
          passed := { line.passed with queue := rest }
          matched := line.matched ++ found }
  /-- The mean sends a marker on. -/
  skip_marker : ∀ results line tuple rest, motive results line → line.matched = tuple :: rest →
    tuple.isEndOfStream = true → motive results { line with matched := rest }
  /-- The mean remembers a tuple that completes no window. -/
  remember : ∀ results line tuple rest, motive results line → line.matched = tuple :: rest →
    tuple.isEndOfStream = false → (line.buffer.enqueue tuple).2 = [] →
    motive results { line with matched := rest, buffer := (line.buffer.enqueue tuple).1 }
  /-- A window with mixed versions makes the pipeline start over from the backup. -/
  redo : ∀ results line tuple rest, motive results line → line.matched = tuple :: rest →
    tuple.isEndOfStream = false →
    (line.buffer.enqueue tuple).2 = [(line.buffer.enqueue tuple).1.contents] →
    (line.buffer.enqueue tuple).1.contents.isConsistent = false →
    motive results
      { line with
        passed := line.passed.recover
        matched := []
        buffer := (line.buffer.enqueue tuple).1.reset }
  /-- A consistent window is committed, and its mean is the next result. -/
  commit : ∀ results line tuple rest, motive results line → line.matched = tuple :: rest →
    tuple.isEndOfStream = false →
    (line.buffer.enqueue tuple).2 = [(line.buffer.enqueue tuple).1.contents] →
    (line.buffer.enqueue tuple).1.contents.isConsistent = true →
    ∃ result, (AggregateFunction.mean pipeline.index).apply pipeline.mean.schema
        (line.buffer.enqueue tuple).1.contents = .ok result ∧
      motive (results ++ [result])
        { line with
          passed := line.passed.evictBefore (line.buffer.enqueue tuple).1.mark
          matched := rest
          buffer := (line.buffer.enqueue tuple).1 }

/-- A pipeline of whose results and line a property holds. -/
def History (pipeline : Pipeline) (motive : List Tuple → Line → Prop) (log : List Firing)
    (world : World) : Prop :=
  ∃ line, pipeline.Shows world line ∧ motive (pipeline.results log) line

theorem History.of_cells_eq {motive : List Tuple → Line → Prop}
    (history : pipeline.History motive log world) {after : World}
    (cells_eq : after.cells = world.cells) : pipeline.History motive log after := by
  obtain ⟨line, shows_line, holds⟩ := history
  exact ⟨line, shows_line.of_cells_eq cells_eq, holds⟩

/-! ## Evaluations -/

/-- An evaluation that succeeds and, with the response of the scheduler, keeps the history. -/
def Continues (pipeline : Pipeline) (deployment : Deployment) (motive : List Tuple → Line → Prop)
    (log : List Firing) (world : World) (operator : QueryTree) : Prop :=
  ∃ step, (world.evaluate (deployment.schedule.role operator.id) operator).2 = .ok step ∧
    ∀ execution : Execution,
      execution.world = (world.evaluate (deployment.schedule.role operator.id) operator).1 →
      pipeline.History motive (log ++ [deployment.schedule.fire operator world])
        (deployment.schedule.react execution step).world

theorem continues_of_quiet {motive : List Tuple → Line → Prop} {operator : QueryTree} {step : Step}
    (quiet : step.isSignal = false)
    (evaluated : (world.evaluate (deployment.schedule.role operator.id) operator).2 = .ok step)
    (history : pipeline.History motive (log ++ [deployment.schedule.fire operator world])
      (world.evaluate (deployment.schedule.role operator.id) operator).1) :
    pipeline.Continues deployment motive log world operator := by
  refine ⟨step, evaluated, fun execution world_eq => ?_⟩
  rw [Schedule.react_eq_self_of_isSignal_eq_false _ _ _ quiet, world_eq]
  exact history

namespace Upholds

variable {snapshot : Snapshot} {motive : List Tuple → Line → Prop} {line : Line}

theorem continues_stream (upholds : pipeline.Upholds snapshot motive)
    (runs : pipeline.RunsIn deployment) (shows_line : pipeline.Shows world line)
    (holds : motive (pipeline.results log) line) :
    pipeline.Continues deployment motive log world pipeline.stream := by
  have places := runs.plannedIn.isPlan.hasPlaces
  have unchanged : pipeline.results (log ++ [deployment.schedule.fire pipeline.stream world]) =
      pipeline.results log :=
    results_append_of_ne deployment log (show pipeline.stream.id ≠ _ from places.source_ne_mean)
      world
  rw [← unchanged] at holds
  cases arrivals_eq : line.arrivals with
  | nil =>
      obtain ⟨evaluated, shows_after⟩ := shows_line.evaluate_stream_of_nil places arrivals_eq
      exact continues_of_quiet rfl evaluated ⟨line, shows_after, holds⟩
  | cons tuple rest =>
      obtain ⟨evaluated, shows_after⟩ := shows_line.evaluate_stream_of_cons places arrivals_eq
      exact continues_of_quiet rfl evaluated
        ⟨_, shows_after, upholds.pass _ _ _ _ holds arrivals_eq⟩

theorem continues_matching {relation : Relation}
    (upholds : pipeline.Upholds relation.snapshot motive) (runs : pipeline.RunsIn deployment)
    (found : world.relation? pipeline.reference.place = some relation)
    (id_eq : relation.id = pipeline.reference.place)
    (access : world.catalog.access.mode = .optimistic) (shows_line : pipeline.Shows world line)
    (holds : motive (pipeline.results log) line) :
    pipeline.Continues deployment motive log world pipeline.matching := by
  have places := runs.plannedIn.isPlan.hasPlaces
  have unchanged : pipeline.results (log ++ [deployment.schedule.fire pipeline.matching world]) =
      pipeline.results log :=
    results_append_of_ne deployment log
      (show pipeline.matching.id ≠ _ from places.combine_ne_mean) world
  rw [← unchanged] at holds
  cases queue_eq : line.passed.queue with
  | nil =>
      have evaluated := shows_line.evaluate_matching_of_nil queue_eq
        (deployment.schedule.role pipeline.matching.id)
      have idle : Step.idle.isSignal = false := rfl
      apply continues_of_quiet idle (by rw [evaluated])
      rw [evaluated]
      exact ⟨line, shows_line, holds⟩
  | cons tuple rest =>
      cases is_marker : tuple.isEndOfStream with
      | true =>
          obtain ⟨step, quiet, evaluated, _, shows_after⟩ :=
            shows_line.evaluate_matching_of_marker places queue_eq is_marker
          exact continues_of_quiet quiet evaluated
            ⟨_, shows_after, upholds.match_marker _ _ _ _ holds queue_eq is_marker⟩
      | false =>
          obtain ⟨found_matches, matched, next⟩ :=
            upholds.match_data _ _ _ _ holds queue_eq is_marker
          have read : world.catalog.readRelation pipeline.reference.place relation =
              (relation.snapshot, world.catalog) := by
            rw [Catalog.readRelation]
            simp only [access]
          obtain ⟨step, quiet, evaluated, _, shows_after⟩ :=
            shows_line.evaluate_matching_of_data places queue_eq is_marker found read
              (id_eq ▸ matched)
          exact continues_of_quiet quiet evaluated ⟨_, shows_after, next⟩

variable {tuple : Tuple} {rest : List Tuple}

/-- After a window with mixed versions the backup is evaluated again. -/
theorem continues_redo (upholds : pipeline.Upholds snapshot motive)
    (runs : pipeline.RunsIn deployment) (shows_line : pipeline.Shows world line)
    (holds : motive (pipeline.results log) line) (matched_eq : line.matched = tuple :: rest)
    (is_data : tuple.isEndOfStream = false)
    (reported : (line.buffer.enqueue tuple).2 = [(line.buffer.enqueue tuple).1.contents])
    (mixed : (line.buffer.enqueue tuple).1.contents.isConsistent = false) :
    pipeline.Continues deployment motive log world pipeline.tree := by
  have checks : (deployment.schedule.role pipeline.mean.id).checksConsistency = true := by
    rw [runs.role_mean]
  obtain ⟨evaluated, shows_after⟩ := shows_line.evaluate_tree_of_mixed
    runs.plannedIn.isPlan.hasPlaces checks matched_eq is_data reported mixed
  have unchanged := results_append_of_no_data deployment log shows_line shows_after
    (List.append_nil line.results).symm dataOf_nil
  refine ⟨_, evaluated, fun execution world_eq => ?_⟩
  rw [tree_id] at world_eq
  rw [← world_eq] at shows_after
  refine ⟨_, shows_after.react_lostConsistency runs, ?_⟩
  rw [unchanged]
  exact upholds.redo _ _ _ _ holds matched_eq is_data reported mixed

/-- A consistent window is committed, and its mean is sent. -/
theorem continues_commit (upholds : pipeline.Upholds snapshot motive)
    (runs : pipeline.RunsIn deployment) (shows_line : pipeline.Shows world line)
    (holds : motive (pipeline.results log) line) (matched_eq : line.matched = tuple :: rest)
    (is_data : tuple.isEndOfStream = false)
    (reported : (line.buffer.enqueue tuple).2 = [(line.buffer.enqueue tuple).1.contents])
    (consistent : (line.buffer.enqueue tuple).1.contents.isConsistent = true) :
    pipeline.Continues deployment motive log world pipeline.tree := by
  have signals : (deployment.schedule.role pipeline.mean.id).signalsCommit = true := by
    rw [runs.role_mean]
  have closes : (deployment.schedule.role pipeline.mean.id).defersClose = false := by
    rw [runs.role_mean]
  obtain ⟨result, computed, next⟩ :=
    upholds.commit _ _ _ _ holds matched_eq is_data reported consistent
  obtain ⟨evaluated, shows_after⟩ := shows_line.evaluate_tree_of_window
    runs.plannedIn.isPlan.hasPlaces signals matched_eq is_data reported (fun _ => consistent)
    computed
  rw [closes] at shows_after
  have result_is_data : result.isEndOfStream = false := by
    rw [Tuple.isEndOfStream, (AggregateFunction.apply_eq_ok computed).1]
    rfl
  have extended := results_append deployment log shows_line shows_after rfl
  rw [dataOf_cons_of_data result_is_data, dataOf_nil] at extended
  refine ⟨_, evaluated, fun execution world_eq => ?_⟩
  rw [tree_id] at world_eq
  rw [← world_eq] at shows_after
  refine ⟨_, shows_after.react_commit runs _, ?_⟩
  rw [extended]
  exact upholds.collect _ _ next _

theorem continues_tree (upholds : pipeline.Upholds snapshot motive)
    (runs : pipeline.RunsIn deployment) (shows_line : pipeline.Shows world line)
    (holds : motive (pipeline.results log) line) :
    pipeline.Continues deployment motive log world pipeline.tree := by
  cases matched_eq : line.matched with
  | nil =>
      have evaluated := shows_line.evaluate_tree_of_nil matched_eq
        (deployment.schedule.role pipeline.tree.id)
      have idle : Step.idle.isSignal = false := rfl
      have shows_after : pipeline.Shows
          (world.evaluate (deployment.schedule.role pipeline.mean.id) pipeline.tree).1 line := by
        rw [← tree_id, evaluated]
        exact shows_line
      have unchanged := results_append_of_no_data deployment log shows_line shows_after
        (List.append_nil line.results).symm dataOf_nil
      rw [← unchanged] at holds
      exact continues_of_quiet idle (by rw [evaluated]) ⟨line, shows_after, holds⟩
  | cons tuple rest =>
      cases is_marker : tuple.isEndOfStream with
      | true =>
          obtain ⟨evaluated, shows_after⟩ :=
            shows_line.evaluate_tree_of_marker runs.plannedIn.isPlan.hasPlaces matched_eq is_marker
          have unchanged := results_append_of_no_data deployment log shows_line shows_after rfl
            (dataOf_cons_of_marker is_marker [])
          rw [← unchanged] at holds
          exact continues_of_quiet rfl evaluated ⟨_, shows_after, upholds.collect _ _
            (upholds.skip_marker _ _ _ _ holds matched_eq is_marker) _⟩
      | false =>
          rcases line.buffer.enqueue_reports tuple with none_reported | reported
          · obtain ⟨evaluated, shows_after⟩ := shows_line.evaluate_tree_of_remembered
              runs.plannedIn.isPlan.hasPlaces matched_eq is_marker none_reported
            have unchanged := results_append_of_no_data deployment log shows_line shows_after
              (List.append_nil line.results).symm dataOf_nil
            rw [← unchanged] at holds
            exact continues_of_quiet rfl evaluated ⟨_, shows_after,
              upholds.remember _ _ _ _ holds matched_eq is_marker none_reported⟩
          · cases consistent : (line.buffer.enqueue tuple).1.contents.isConsistent with
            | false =>
                exact upholds.continues_redo runs shows_line holds matched_eq is_marker reported
                  consistent
            | true =>
                exact upholds.continues_commit runs shows_line holds matched_eq is_marker reported
                  consistent

/-- Every operator of a pipeline keeps its history. -/
theorem continues {relation : Relation} (upholds : pipeline.Upholds relation.snapshot motive)
    (runs : pipeline.RunsIn deployment)
    (found : world.relation? pipeline.reference.place = some relation)
    (id_eq : relation.id = pipeline.reference.place)
    (access : world.catalog.access.mode = .optimistic) {operator : QueryTree}
    (member : operator ∈ deployment.schedule.order)
    (history : pipeline.History motive log world) :
    pipeline.Continues deployment motive log world operator := by
  obtain ⟨line, shows_line, holds⟩ := history
  rw [runs.plannedIn.isPlan.order_eq] at member
  simp only [List.mem_cons, List.not_mem_nil, or_false] at member
  rcases member with rfl | rfl | rfl
  · exact upholds.continues_stream runs shows_line holds
  · exact upholds.continues_matching runs found id_eq access shows_line holds
  · exact upholds.continues_tree runs shows_line holds

/-- A turn of the scheduler keeps the history. -/
theorem turn {execution : Execution} {relation : Relation}
    (upholds : pipeline.Upholds relation.snapshot motive) (runs : pipeline.RunsIn deployment)
    (found : execution.world.relation? pipeline.reference.place = some relation)
    (id_eq : relation.id = pipeline.reference.place)
    (access : execution.world.catalog.access.mode = .optimistic)
    (history : pipeline.History motive log execution.world) :
    pipeline.History motive (log ++ deployment.schedule.firings execution)
      (deployment.schedule.wakeUp execution).1.world := by
  have preserves : deployment.schedule.Preserves (fun _ => False) fun log world =>
      pipeline.History motive log world ∧ world.catalog = execution.world.catalog := by
    refine ⟨fun log world operator after error member holds evaluated => ?_,
      fun log world operator after step following member holds evaluated world_eq => ?_,
      fun _ _ _ impossible => impossible.elim⟩
    · obtain ⟨history, same⟩ := holds
      obtain ⟨step, succeeds, _⟩ := upholds.continues runs
        (by rw [World.relation?, same]; exact found) id_eq (by rw [same]; exact access) member
        history
      rw [evaluated] at succeeds
      cases succeeds
    · obtain ⟨history, same⟩ := holds
      have world_access : world.catalog.access.mode = .optimistic := by
        rw [same]
        exact access
      have kept := Schedule.react_catalog_of_evaluate runs.schedule_mode world_access evaluated
        world_eq
      obtain ⟨expected, succeeds, continues⟩ := upholds.continues runs
        (by rw [World.relation?, same]; exact found) id_eq world_access member history
      rw [evaluated] at succeeds continues
      cases succeeds
      exact ⟨continues following world_eq, kept.trans same⟩
  exact (preserves.turn ⟨history, rfl⟩).1

end Upholds

end Pipeline

end StreamQuery
