import StreamQuery.Proofs.Operator.Counters
import StreamQuery.Proofs.Pipeline

/-!
# Steps of pipelines

What the evaluation of each operator, the responses of the scheduler and actions from outside make
of a line.
-/

namespace StreamQuery

namespace Pipeline

namespace Shows

variable {pipeline : Pipeline} {world : World} {line : Line} {isOpen : Bool} {role : CommitRole}

/-! ## The stream -/

theorem evaluate_stream_of_nil (shows_line : pipeline.Shows world line isOpen)
    (places : pipeline.HasPlaces) (empty : line.arrivals = []) :
    (world.evaluate role pipeline.stream).2 = .ok .idle ∧
      pipeline.Shows (world.evaluate role pipeline.stream).1 line isOpen := by
  obtain ⟨cell, found, output_eq, arrivals, memory_eq, queue_eq⟩ := shows_line.source
  have passed : cell.passOn pipeline.source.name = (cell, .ok .idle) := by
    simp [Cell.passOn, memory_eq, Channel.dequeue?, queue_eq, empty]
  have next := shows_line.setSource places memory_eq
  rw [queue_eq, output_eq] at next
  rw [stream, World.evaluate, World.act_of_getElem? found, passed]
  exact ⟨rfl, next⟩

/-- The stream passes an arrival on. -/
theorem evaluate_stream_of_cons (shows_line : pipeline.Shows world line isOpen)
    (places : pipeline.HasPlaces) {tuple : Tuple} {rest : List Tuple}
    (arrivals_eq : line.arrivals = tuple :: rest) :
    (world.evaluate role pipeline.stream).2 = .ok (.emitted 1) ∧
      pipeline.Shows (world.evaluate role pipeline.stream).1
        { line with arrivals := rest, passed := line.passed.enqueue tuple } isOpen := by
  obtain ⟨cell, found, output_eq, arrivals, memory_eq, queue_eq⟩ := shows_line.source
  let remaining : Channel := { arrivals with queue := rest }
  let after : Cell := (({ cell with memory := .source remaining }).consume 1).send [tuple]
  have passed : cell.passOn pipeline.source.name = (after, .ok (.emitted 1)) := by
    simp [Cell.passOn, memory_eq, Channel.dequeue?, queue_eq, arrivals_eq, after, remaining]
  have remembered : after.memory = .source remaining := rfl
  rw [stream, World.evaluate, World.act_of_getElem? found, passed, ← output_eq]
  exact ⟨rfl, shows_line.setSource places remembered⟩

/-! ## The match -/

theorem combine_isSettled (shows_line : pipeline.Shows world line isOpen) :
    world.hasPendingCommit pipeline.combine.id = false := by
  obtain ⟨cell, found, _, memory_eq⟩ := shows_line.combine
  simp [World.hasPendingCommit, found, Cell.hasPendingCommit, memory_eq, Memory.aggregation?]

theorem evaluate_matching_of_nil (shows_line : pipeline.Shows world line isOpen)
    (empty : line.passed.queue = []) (role : CommitRole) :
    world.evaluate role pipeline.matching = (world, .ok .idle) := by
  obtain ⟨cell, found, output_eq, _⟩ := shows_line.source
  have taken : world.take pipeline.source.id = (none, world) :=
    World.take_of_nil found (output_eq ▸ empty)
  rw [matching, World.evaluate, World.evaluateSingle, shows_line.combine_isSettled]
  simp only [Bool.false_eq_true, if_false]
  rw [stream, QueryTree.id, QueryTree.header, taken]

/-- Tuples that were delivered wait for the mean. -/
theorem deliver (shows_line : pipeline.Shows world line isOpen) (places : pipeline.HasPlaces)
    (results : List Tuple) :
    ∃ step, step.isSignal = false ∧
      (world.act pipeline.combine (·.deliver (.ok results))).2 = .ok step ∧
      pipeline.Shows (world.act pipeline.combine (·.deliver (.ok results))).1
        { line with matched := line.matched ++ results } isOpen := by
  obtain ⟨cell, found, queue_eq, memory_eq⟩ := shows_line.combine
  have sent : ((cell.deliver (.ok results)).1).output.queue = line.matched ++ results := by
    rw [← queue_eq]
    cases results with
    | nil => exact (List.append_nil _).symm
    | cons result results => exact Channel.enqueueAll_queue cell.output (result :: results)
  have next := shows_line.setCombine places
    ((cell.deliver_memory (.ok results)).trans memory_eq)
  rw [sent] at next
  rw [World.act_of_getElem? found]
  cases results with
  | nil => exact ⟨.noOutput, rfl, rfl, next⟩
  | cons result results => exact ⟨.emitted (result :: results).length, rfl, rfl, next⟩

/-- The match takes a tuple before it acts. -/
theorem take_passed (shows_line : pipeline.Shows world line isOpen) (role : CommitRole)
    (places : pipeline.HasPlaces) {tuple : Tuple} {rest : List Tuple}
    (queue_eq : line.passed.queue = tuple :: rest) :
    ∃ counted, pipeline.Shows counted
        { line with passed := { line.passed with queue := rest } } isOpen ∧
      counted.catalog = world.catalog ∧
      world.evaluate role pipeline.matching =
        if tuple.isEndOfStream then
          counted.act pipeline.combine (·.deliver (.ok [tuple]))
        else
          counted.process role pipeline.combine
            (.combine pipeline.reference pipeline.condition) tuple := by
  obtain ⟨cell, found, output_eq, _⟩ := shows_line.source
  have taken := World.take_of_cons found (output_eq ▸ queue_eq)
  rw [output_eq] at taken
  have drained := shows_line.modifyPassed places fun _ => { line.passed with queue := rest }
  refine ⟨_, drained.consume pipeline.combine.id 1, rfl, ?_⟩
  rw [matching, World.evaluate, World.evaluateSingle, shows_line.combine_isSettled]
  simp only [Bool.false_eq_true, if_false]
  rw [stream, QueryTree.id, QueryTree.header, taken]

/-- The match sends a marker on. -/
theorem evaluate_matching_of_marker (shows_line : pipeline.Shows world line isOpen)
    (places : pipeline.HasPlaces) {tuple : Tuple} {rest : List Tuple}
    (queue_eq : line.passed.queue = tuple :: rest) (is_marker : tuple.isEndOfStream = true) :
    ∃ step, step.isSignal = false ∧ (world.evaluate role pipeline.matching).2 = .ok step ∧
      (world.evaluate role pipeline.matching).1.catalog = world.catalog ∧
      pipeline.Shows (world.evaluate role pipeline.matching).1
        { line with
          passed := { line.passed with queue := rest }
          matched := line.matched ++ [tuple] } isOpen := by
  obtain ⟨counted, counted_shows, catalog_eq, evaluated⟩ :=
    shows_line.take_passed role places queue_eq
  obtain ⟨step, quiet, delivered, next⟩ := counted_shows.deliver places [tuple]
  rw [evaluated, if_pos is_marker]
  exact ⟨step, quiet, delivered, (World.act_catalog _ _ _).trans catalog_eq, next⟩

/-- The match sends on what a tuple of data is joined to. -/
theorem evaluate_matching_of_data (shows_line : pipeline.Shows world line isOpen)
    (places : pipeline.HasPlaces) {tuple : Tuple} {rest : List Tuple}
    (queue_eq : line.passed.queue = tuple :: rest) (is_data : tuple.isEndOfStream = false)
    {relation : Relation} (found : world.relation? pipeline.reference.place = some relation)
    {snapshot : Snapshot} {catalog : Catalog}
    (read : world.catalog.readRelation pipeline.reference.place relation = (snapshot, catalog))
    {results : List Tuple}
    (matched : matchSnapshot pipeline.condition pipeline.combine.schema relation.id snapshot
      tuple = .ok results) :
    ∃ step, step.isSignal = false ∧ (world.evaluate role pipeline.matching).2 = .ok step ∧
      (world.evaluate role pipeline.matching).1.catalog = catalog ∧
      pipeline.Shows (world.evaluate role pipeline.matching).1
        { line with
          passed := { line.passed with queue := rest }
          matched := line.matched ++ results } isOpen := by
  obtain ⟨counted, counted_shows, catalog_eq, evaluated⟩ :=
    shows_line.take_passed role places queue_eq
  have reading : pipeline.Shows { counted with catalog }
      { line with passed := { line.passed with queue := rest } } isOpen :=
    counted_shows.of_cells_eq rfl
  obtain ⟨step, quiet, delivered, next⟩ := reading.deliver places results
  have processed : world.evaluate role pipeline.matching =
      ({ counted with catalog }).act pipeline.combine (·.deliver (.ok results)) := by
    have relation_found : world.catalog.relations[pipeline.reference.place]? = some relation :=
      found
    rw [evaluated, if_neg (by simp [is_data]), World.process]
    simp only [catalog_eq, relation_found, read, matched]
  rw [processed]
  exact ⟨step, quiet, delivered, World.act_catalog _ _ _, next⟩

/-! ## The mean -/

theorem mean_hasPendingCommit (shows_line : pipeline.Shows world line isOpen) :
    world.hasPendingCommit pipeline.mean.id = isOpen := by
  obtain ⟨cell, found, _, aggregation, memory_eq, _, open_eq⟩ := shows_line.mean
  simp [World.hasPendingCommit, found, Cell.hasPendingCommit, memory_eq, Memory.aggregation?,
    open_eq]

theorem evaluate_tree_of_nil (shows_line : pipeline.Shows world line isOpen)
    (empty : line.matched = []) (role : CommitRole) :
    world.evaluate role pipeline.tree = (world, .ok .idle) := by
  obtain ⟨cell, found, queue_eq, _⟩ := shows_line.combine
  rw [tree, QueryTree.mean, World.evaluate, World.evaluateSingle, shows_line.mean_hasPendingCommit,
    matching, QueryTree.id, QueryTree.header]
  cases isOpen with
  | true =>
      simp [World.output_of_getElem? found, Channel.peek?, queue_eq, empty]
  | false =>
      have taken : world.take pipeline.combine.id = (none, world) :=
        World.take_of_nil found (queue_eq.trans empty)
      simp [taken]

/-- An open commit is closed when a tuple waits. -/
theorem evaluate_tree_of_open (shows_line : pipeline.Shows world line true)
    (places : pipeline.HasPlaces) {tuple : Tuple} {rest : List Tuple}
    (matched_eq : line.matched = tuple :: rest) :
    (world.evaluate role pipeline.tree).2 = .ok (.pendingAbort tuple.lowWater) ∧
      pipeline.Shows (world.evaluate role pipeline.tree).1 line := by
  obtain ⟨cell, found, queue_eq, _⟩ := shows_line.combine
  have closes : world.evaluate role pipeline.tree =
      (world.modifyCell pipeline.mean.id Cell.closeCommit, .ok (.pendingAbort tuple.lowWater)) := by
    rw [tree, QueryTree.mean, World.evaluate, World.evaluateSingle,
      shows_line.mean_hasPendingCommit, matching, QueryTree.id, QueryTree.header]
    simp [World.output_of_getElem? found, Channel.peek?, queue_eq, matched_eq]
  rw [closes]
  refine ⟨rfl, shows_line.source.modifyCell_of_ne places.source_ne_mean,
    shows_line.combine.modifyCell_of_ne places.combine_ne_mean,
    shows_line.mean.modifyCell_self fun cell holds => ?_⟩
  obtain ⟨queue_eq, aggregation, memory_eq, synopsis_eq, _⟩ := holds
  rw [Cell.closeCommit, memory_eq]
  exact ⟨queue_eq, { aggregation with pendingCommit := false }, rfl, synopsis_eq, rfl⟩

/-- The mean takes a tuple before it acts. -/
theorem take_matched (shows_line : pipeline.Shows world line) (role : CommitRole)
    (places : pipeline.HasPlaces) {tuple : Tuple} {rest : List Tuple}
    (matched_eq : line.matched = tuple :: rest) :
    ∃ counted, pipeline.Shows counted { line with matched := rest } ∧
      world.evaluate role pipeline.tree =
        if tuple.isEndOfStream then
          counted.act pipeline.mean (·.deliver (.ok [tuple]))
        else
          counted.act pipeline.mean
            (·.aggregate pipeline.mean (.mean pipeline.index) role tuple) := by
  obtain ⟨cell, found, queue_eq, _⟩ := shows_line.combine
  have taken := World.take_of_cons found (queue_eq.trans matched_eq)
  have drained : pipeline.Shows
      (world.modifyOutput pipeline.combine.id fun _ => { cell.output with queue := rest })
      { line with matched := rest } :=
    shows_line.modifyMatched places fun _ _ => rfl
  refine ⟨_, drained.consume pipeline.mean.id 1, ?_⟩
  rw [tree, QueryTree.mean, World.evaluate, World.evaluateSingle, shows_line.mean_hasPendingCommit]
  simp only [Bool.false_eq_true, if_false]
  rw [matching, QueryTree.id, QueryTree.header, taken]
  rfl

/-- The mean sends a marker on. -/
theorem evaluate_tree_of_marker (shows_line : pipeline.Shows world line)
    (places : pipeline.HasPlaces) {tuple : Tuple} {rest : List Tuple}
    (matched_eq : line.matched = tuple :: rest) (is_marker : tuple.isEndOfStream = true) :
    (world.evaluate role pipeline.tree).2 = .ok (.emitted 1) ∧
      pipeline.Shows (world.evaluate role pipeline.tree).1
        { line with matched := rest, results := line.results ++ [tuple] } := by
  obtain ⟨counted, counted_shows, evaluated⟩ := shows_line.take_matched role places matched_eq
  obtain ⟨cell, found, queue_eq, aggregation, memory_eq, synopsis_eq, closed⟩ := counted_shows.mean
  have sent : ((cell.deliver (.ok [tuple])).1).output.queue = line.results ++ [tuple] := by
    rw [show line.results = cell.output.queue from queue_eq.symm]
    exact Channel.enqueueAll_queue cell.output [tuple]
  have next := counted_shows.setMean places
    ((cell.deliver_memory (.ok [tuple])).trans memory_eq) synopsis_eq
  rw [sent, closed] at next
  rw [evaluated, if_pos is_marker, World.act_of_getElem? found]
  exact ⟨rfl, next⟩

/-- The mean accepts a tuple of data and sends the results of the windows that it completes. -/
theorem evaluate_tree_of_data (shows_line : pipeline.Shows world line)
    (places : pipeline.HasPlaces) {tuple : Tuple} {rest : List Tuple}
    (matched_eq : line.matched = tuple :: rest) (is_data : tuple.isEndOfStream = false)
    {evaluation : Evaluation} {step : Step}
    (windows : Evaluation.ofWindows
      ((AggregateFunction.mean pipeline.index).apply pipeline.mean.schema)
      role.checksConsistency (line.buffer.enqueue tuple).2 = evaluation)
    (step_eq : Aggregation.stepOf role evaluation = .ok step) :
    (world.evaluate role pipeline.tree).2 = .ok step ∧
      pipeline.Shows (world.evaluate role pipeline.tree).1
        { line with
          matched := rest
          buffer := (line.buffer.enqueue tuple).1
          results := line.results ++ evaluation.results }
        (Aggregation.opensCommit role (.ok step)) := by
  obtain ⟨counted, counted_shows, evaluated⟩ := shows_line.take_matched role places matched_eq
  obtain ⟨cell, found, queue_eq, aggregation, memory_eq, synopsis_eq, closed⟩ := counted_shows.mean
  let after : Aggregation :=
    { synopsis := .rows (line.buffer.enqueue tuple).1
      pendingCommit := Aggregation.opensCommit role (.ok step)
      evaluated := aggregation.evaluated + evaluation.evaluated
      consistent := aggregation.consistent + evaluation.consistent
      emitted := aggregation.emitted + evaluation.results.length }
  have accepted : aggregation.accept (.mean pipeline.index) pipeline.mean.schema role tuple =
      (after, evaluation.results, .ok step) := by
    rw [Aggregation.accept, synopsis_eq]
    simp [Synopsis.enqueue, Prod.map, windows, step_eq, closed, after]
  have aggregated : cell.aggregate pipeline.mean (.mean pipeline.index) role tuple =
      (({ cell with memory := .aggregate after }).send evaluation.results, .ok step) := by
    rw [Cell.aggregate, memory_eq]
    simp only [accepted]
  have sent : (({ cell with memory := .aggregate after }).send evaluation.results).output.queue =
      line.results ++ evaluation.results := by
    rw [show line.results = cell.output.queue from queue_eq.symm]
    exact Channel.enqueueAll_queue cell.output evaluation.results
  have remembered : (({ cell with memory := .aggregate after }).send evaluation.results).memory =
      .aggregate after := rfl
  have next := counted_shows.setMean places remembered rfl
  rw [sent] at next
  rw [evaluated, if_neg (by simp [is_data]), World.act_of_getElem? found, aggregated]
  exact ⟨rfl, next⟩

/-- A tuple that completes no window is remembered. -/
theorem evaluate_tree_of_remembered (shows_line : pipeline.Shows world line)
    (places : pipeline.HasPlaces) {tuple : Tuple} {rest : List Tuple}
    (matched_eq : line.matched = tuple :: rest) (is_data : tuple.isEndOfStream = false)
    (none_reported : (line.buffer.enqueue tuple).2 = []) :
    (world.evaluate role pipeline.tree).2 = .ok .noOutput ∧
      pipeline.Shows (world.evaluate role pipeline.tree).1
        { line with matched := rest, buffer := (line.buffer.enqueue tuple).1 } := by
  have windows : Evaluation.ofWindows
      ((AggregateFunction.mean pipeline.index).apply pipeline.mean.schema)
      role.checksConsistency (line.buffer.enqueue tuple).2 = {} := by
    rw [none_reported]
    rfl
  have step_eq : Aggregation.stepOf role {} = .ok .noOutput := rfl
  obtain ⟨evaluated, shows_after⟩ :=
    shows_line.evaluate_tree_of_data places matched_eq is_data windows step_eq
  rw [List.append_nil] at shows_after
  exact ⟨evaluated, shows_after⟩

/-- A window that the commit operator accepts is committed. -/
theorem evaluate_tree_of_window (shows_line : pipeline.Shows world line)
    (places : pipeline.HasPlaces) (signals : role.signalsCommit = true) {tuple : Tuple}
    {rest : List Tuple} (matched_eq : line.matched = tuple :: rest)
    (is_data : tuple.isEndOfStream = false)
    (reported : (line.buffer.enqueue tuple).2 = [(line.buffer.enqueue tuple).1.contents])
    (accepted : role.checksConsistency = true →
      (line.buffer.enqueue tuple).1.contents.isConsistent = true)
    {result : Tuple}
    (computed : (AggregateFunction.mean pipeline.index).apply pipeline.mean.schema
      (line.buffer.enqueue tuple).1.contents = .ok result) :
    (world.evaluate role pipeline.tree).2 =
        .ok (.commit (line.buffer.enqueue tuple).1.contents.mark) ∧
      pipeline.Shows (world.evaluate role pipeline.tree).1
        { line with
          matched := rest
          buffer := (line.buffer.enqueue tuple).1
          results := line.results ++ [result] }
        role.defersClose := by
  have windows : Evaluation.ofWindows
      ((AggregateFunction.mean pipeline.index).apply pipeline.mean.schema)
      role.checksConsistency (line.buffer.enqueue tuple).2 =
        { evaluated := 1
          consistent := if (line.buffer.enqueue tuple).1.contents.isConsistent then 1 else 0
          results := [result]
          mark? := some (line.buffer.enqueue tuple).1.contents.mark } := by
    rw [reported, Evaluation.ofWindows, if_neg (by simpa using accepted), computed]
    simp [Evaluation.ofWindows]
  have step_eq : Aggregation.stepOf role
      { evaluated := 1
        consistent := if (line.buffer.enqueue tuple).1.contents.isConsistent then 1 else 0
        results := [result]
        mark? := some (line.buffer.enqueue tuple).1.contents.mark } =
        .ok (.commit (line.buffer.enqueue tuple).1.contents.mark) := by
    simp [Aggregation.stepOf, signals]
  exact shows_line.evaluate_tree_of_data places matched_eq is_data windows step_eq

/-- A window with mixed versions is not committed where consistency is checked. -/
theorem evaluate_tree_of_mixed (shows_line : pipeline.Shows world line)
    (places : pipeline.HasPlaces) (checks : role.checksConsistency = true) {tuple : Tuple}
    {rest : List Tuple} (matched_eq : line.matched = tuple :: rest)
    (is_data : tuple.isEndOfStream = false)
    (reported : (line.buffer.enqueue tuple).2 = [(line.buffer.enqueue tuple).1.contents])
    (mixed : (line.buffer.enqueue tuple).1.contents.isConsistent = false) :
    (world.evaluate role pipeline.tree).2 = .ok (.lostConsistency none) ∧
      pipeline.Shows (world.evaluate role pipeline.tree).1
        { line with matched := rest, buffer := (line.buffer.enqueue tuple).1 } := by
  have windows : Evaluation.ofWindows
      ((AggregateFunction.mean pipeline.index).apply pipeline.mean.schema)
      role.checksConsistency (line.buffer.enqueue tuple).2 =
        { evaluated := 1, interruption? := some .lostConsistency } := by
    rw [reported, checks]
    simp [Evaluation.ofWindows, mixed]
  have step_eq : Aggregation.stepOf role
      { evaluated := 1, interruption? := some .lostConsistency } = .ok (.lostConsistency none) := by
    simp [Aggregation.stepOf]
  obtain ⟨evaluated, shows_after⟩ :=
    shows_line.evaluate_tree_of_data places matched_eq is_data windows step_eq
  rw [List.append_nil] at shows_after
  exact ⟨evaluated, shows_after⟩

/-! ## The scheduler -/

/-- The redo area starts over. -/
theorem restart (shows_line : pipeline.Shows world line isOpen) (places : pipeline.HasPlaces) :
    pipeline.Shows
      (world.restart (some pipeline.mean.id) [pipeline.combine.id, pipeline.mean.id])
      { line with matched := [], buffer := line.buffer.reset } := by
  have matched_restarted : pipeline.Shows
      (world.modifyCell pipeline.combine.id
        (·.restart (some pipeline.mean.id = some pipeline.combine.id)))
      { line with matched := [] } isOpen := by
    refine ⟨shows_line.source.modifyCell_of_ne places.source_ne_combine,
      shows_line.combine.modifyCell_self fun cell holds => ⟨?_, ?_⟩,
      shows_line.mean.modifyCell_of_ne places.combine_ne_mean.symm⟩
    · simp [Cell.restart, places.combine_ne_mean.symm, Channel.clear]
    · simp [Cell.restart, holds.2, Memory.reset]
  refine ⟨matched_restarted.source.modifyCell_of_ne places.source_ne_mean,
    matched_restarted.combine.modifyCell_of_ne places.combine_ne_mean,
    matched_restarted.mean.modifyCell_self fun cell holds => ?_⟩
  obtain ⟨queue_eq, aggregation, memory_eq, synopsis_eq, _⟩ := holds
  refine ⟨?_, aggregation.reset, ?_, ?_, rfl⟩
  · simpa [Cell.restart] using queue_eq
  · simp [Cell.restart, memory_eq, Memory.reset]
  · simp [Aggregation.reset, synopsis_eq, Synopsis.reset]

section

variable {deployment : Deployment} {execution : Execution}

/-- After a commit the stream is not needed again from before the mark. -/
theorem react_commit (shows_line : pipeline.Shows execution.world line)
    (runs : pipeline.RunsIn deployment) (mark : Int) :
    pipeline.Shows (deployment.schedule.react execution (.commit mark)).world
      { line with passed := line.passed.evictBefore mark } := by
  rw [Schedule.react, runs.schedule_mode]
  simp only [Schedule.reactOptimistically, Schedule.commitBefore, Schedule.modifyInlets,
    runs.plannedIn.isPlan.redo_eq runs.controlled]
  exact shows_line.modifyPassed runs.plannedIn.isPlan.hasPlaces (·.evictBefore mark)

/-- After a window with mixed versions the backup of the stream is evaluated again. -/
theorem react_lostConsistency (shows_line : pipeline.Shows execution.world line)
    (runs : pipeline.RunsIn deployment) :
    pipeline.Shows (deployment.schedule.react execution (.lostConsistency none)).world
      { line with
        passed := line.passed.recover
        matched := []
        buffer := line.buffer.reset } := by
  rw [Schedule.react, runs.schedule_mode]
  simp only [Schedule.reactOptimistically, Schedule.redoArea, Schedule.restartArea,
    Schedule.modifyInlets, runs.plannedIn.isPlan.redo_eq runs.controlled,
    runs.plannedIn.isPlan.hasCommit.commit?_eq]
  exact (shows_line.restart runs.plannedIn.isPlan.hasPlaces).modifyPassed
    runs.plannedIn.isPlan.hasPlaces Channel.recover

/-- When a transaction ends, the stream is evaluated again from the mark of the waiting tuple on. -/
theorem endTransaction (shows_line : pipeline.Shows execution.world line isOpen)
    (planned : pipeline.PlannedIn deployment) (controlled : deployment.config.mode ≠ .uncontrolled)
    (waiting : Int) :
    pipeline.Shows (deployment.schedule.endTransaction execution waiting).world
      { line with
        passed := line.passed.evictAndRewind waiting
        matched := []
        buffer := line.buffer.reset } := by
  have places := planned.isPlan.hasPlaces
  have ended : pipeline.Shows
      (execution.world.endTransactions deployment.schedule.mode deployment.schedule.order) line
      isOpen := shows_line.of_cells_eq rfl
  rw [Schedule.endTransaction]
  simp only [planned.isPlan.replaysArea, if_true, Schedule.restartArea, Schedule.modifyInlets,
    planned.isPlan.redo_eq controlled, planned.isPlan.hasCommit.commit?_eq]
  exact (ended.modifyPassed places (·.evictAndRewind waiting)).restart places

end

/-! ## Actions from outside -/

theorem arrive (shows_line : pipeline.Shows world line isOpen) (places : pipeline.HasPlaces)
    (tuple : Tuple) :
    pipeline.Shows (world.modifyArrivals pipeline.source.id (·.enqueue tuple))
      { line with arrivals := line.arrivals ++ [tuple] } isOpen where
  source := by
    refine shows_line.source.modifyCell_self fun cell holds => ?_
    obtain ⟨output_eq, arrivals, memory_eq, queue_eq⟩ := holds
    rw [memory_eq]
    exact ⟨output_eq, arrivals.enqueue tuple, rfl, congrArg (· ++ [tuple]) queue_eq⟩
  combine := shows_line.combine.modifyCell_of_ne places.source_ne_combine.symm
  mean := shows_line.mean.modifyCell_of_ne places.source_ne_mean.symm

theorem collect (shows_line : pipeline.Shows world line isOpen) (places : pipeline.HasPlaces) :
    pipeline.Shows (world.modifyOutput pipeline.mean.id Channel.clear)
      { line with results := [] } isOpen where
  source := shows_line.source.modifyCell_of_ne places.source_ne_mean
  combine := shows_line.combine.modifyCell_of_ne places.combine_ne_mean
  mean := shows_line.mean.modifyCell_self fun _ ⟨_, aggregated⟩ => ⟨rfl, aggregated⟩

/-- At the start nothing waits anywhere, and the stream is backed up. -/
theorem start {deployment : Deployment} (planned : pipeline.PlannedIn deployment)
    (controlled : deployment.config.mode ≠ .uncontrolled) :
    pipeline.Shows deployment.start.world
      { arrivals := []
        passed := { isProtected := true }
        matched := []
        buffer := .ofWindow pipeline.window
        results := [] } := by
  have found (operator : QueryTree) (member : operator ∈ deployment.tree.postOrder) :=
    deployment.getElem?_start member
  rw [← deployment.order_eq, planned.isPlan.order_eq, planned.isPlan.redo_eq controlled,
    planned.isPlan.replaysArea] at found
  have places := planned.isPlan.hasPlaces
  refine ⟨⟨_, found pipeline.stream (by simp), ?_, _, rfl, rfl⟩,
    ⟨_, found pipeline.matching (by simp), ?_, rfl⟩,
    ⟨_, found pipeline.tree (by simp), ?_, _, rfl, ?_, rfl⟩⟩
  · simp [Pipeline.stream, QueryTree.id, QueryTree.header]
  · simp
  · simp
  · rw [Synopsis.ofWindow, planned.kind_eq]

end Shows

end Pipeline

end StreamQuery
