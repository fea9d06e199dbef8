import StreamQuery.Proofs.Engine.Responses
import StreamQuery.Proofs.Engine.Sends
import StreamQuery.Proofs.Operator.Accepts
import StreamQuery.Proofs.TumblingMeans
import StreamQuery.Proofs.Window.Reports

/-!
# Segments

What a pipeline makes of the tuples that have arrived since the mean had an empty window, for
windows of either kind. Each tuple of data has one match, so that it is the arrivals themselves that
wait for the operators.
-/

namespace StreamQuery

namespace Pipeline

/-! ## What a mean computes of a segment -/

/-- The windows that the matches of some tuples complete, one after the other, if the mean starts
with an empty window. -/
def reports (pipeline : Pipeline) (snapshot : Snapshot) (tuples : List Tuple) :
    List (List Contents) :=
  (Synopsis.ofWindow pipeline.window).reports
    ((dataOf tuples).flatMap (pipeline.matchesOf snapshot))

/-- The results of these windows. -/
def means (pipeline : Pipeline) (snapshot : Snapshot) (tuples : List Tuple) : List Tuple :=
  (pipeline.reports snapshot tuples).flatten.filterMap fun window =>
    ((AggregateFunction.mean pipeline.index).apply pipeline.mean.schema window).toOption

/-- How many of the tuples complete windows. -/
def commits (pipeline : Pipeline) (snapshot : Snapshot) (tuples : List Tuple) : Nat :=
  (pipeline.reports snapshot tuples).countP fun windows => !windows.isEmpty

/-- What the mean remembers after some tuples. -/
def synopsis (pipeline : Pipeline) (snapshot : Snapshot) (tuples : List Tuple) : Synopsis :=
  (Synopsis.ofWindow pipeline.window).enqueueAll
    ((dataOf tuples).flatMap (pipeline.matchesOf snapshot))

variable {pipeline : Pipeline} {snapshot : Snapshot} {tuple result : Tuple}

theorem reports_append_of_marker (tuples : List Tuple) (is_marker : tuple.isEndOfStream = true) :
    pipeline.reports snapshot (tuples ++ [tuple]) = pipeline.reports snapshot tuples := by
  rw [reports, reports, dataOf_append_of_marker tuples is_marker]

theorem synopsis_append_of_marker (tuples : List Tuple) (is_marker : tuple.isEndOfStream = true) :
    pipeline.synopsis snapshot (tuples ++ [tuple]) = pipeline.synopsis snapshot tuples := by
  rw [synopsis, synopsis, dataOf_append_of_marker tuples is_marker]

theorem matches_append (tuples : List Tuple) (is_data : tuple.isEndOfStream = false)
    (matched : pipeline.matchesOf snapshot tuple = [result]) :
    (dataOf (tuples ++ [tuple])).flatMap (pipeline.matchesOf snapshot) =
      (dataOf tuples).flatMap (pipeline.matchesOf snapshot) ++ [result] := by
  rw [dataOf_append, dataOf_cons_of_data is_data, dataOf_nil, List.flatMap_append,
    List.flatMap_singleton, matched]

theorem reports_append (tuples : List Tuple) (is_data : tuple.isEndOfStream = false)
    (matched : pipeline.matchesOf snapshot tuple = [result]) :
    pipeline.reports snapshot (tuples ++ [tuple]) =
      pipeline.reports snapshot tuples ++
        [((pipeline.synopsis snapshot tuples).enqueue result).2] := by
  rw [reports, matches_append tuples is_data matched, Synopsis.reports_append]
  rfl

theorem synopsis_append (tuples : List Tuple) (is_data : tuple.isEndOfStream = false)
    (matched : pipeline.matchesOf snapshot tuple = [result]) :
    pipeline.synopsis snapshot (tuples ++ [tuple]) =
      ((pipeline.synopsis snapshot tuples).enqueue result).1 := by
  rw [synopsis, matches_append tuples is_data matched, Synopsis.enqueueAll_append]
  rfl

/-- Whatever the mean has taken, it forgets it when it starts over. -/
theorem reset_synopsis (tuples : List Tuple) :
    (pipeline.synopsis snapshot tuples).reset = .ofWindow pipeline.window := by
  rw [synopsis, Synopsis.reset_enqueueAll, Synopsis.reset_ofWindow]

theorem length_sends {tuples : List Tuple}
    (once : ∀ input ∈ dataOf tuples, pipeline.AnswersOnce snapshot input)
    (member : tuple ∈ tuples) : (pipeline.sends snapshot tuple).length = 1 := by
  cases is_marker : tuple.isEndOfStream with
  | true => rw [sends_of_marker is_marker, List.length_singleton]
  | false =>
      rw [sends_of_data is_marker]
      exact (once tuple (List.mem_filter.mpr ⟨member, by simp [is_marker]⟩)).single

/-- Results of windows carry data. -/
theorem dataOf_results (function : AggregateFunction) (schema : Schema)
    (windows : List Contents) :
    dataOf (windows.filterMap fun window => (function.apply schema window).toOption) =
      windows.filterMap fun window => (function.apply schema window).toOption := by
  refine List.filter_eq_self.mpr fun result member => ?_
  obtain ⟨window, _, applied⟩ := List.mem_filterMap.mp member
  cases computed : function.apply schema window with
  | error error => simp [computed, Except.toOption] at applied
  | ok mean =>
      rw [computed] at applied
      obtain rfl := Option.some.inj applied
      rw [Tuple.isEndOfStream, (AggregateFunction.apply_eq_ok computed).1]
      rfl

/-- Every window has a result. -/
theorem exists_mean_of_report {tuples : List Tuple}
    (answers : ∀ input ∈ dataOf tuples, pipeline.Answers snapshot input)
    (numeric : result.HasNumber pipeline.index) {window : Contents}
    (reported : window ∈ ((pipeline.synopsis snapshot tuples).enqueue result).2) :
    ∃ mean, (AggregateFunction.mean pipeline.index).apply pipeline.mean.schema window =
      .ok mean := by
  refine AggregateFunction.exists_mean (fun member inside => ?_) _
  rcases List.mem_append.mp (Synopsis.mem_of_mem_enqueue reported inside) with earlier | newest
  · obtain ⟨input, input_mem, matched⟩ := List.mem_flatMap.mp earlier
    exact (answers input input_mem).numeric member matched
  · rwa [List.mem_singleton.mp newest]

/-! ## Where the tuples of a segment are -/

/-- What has become of the tuples since the mean had an empty window. -/
structure Segment where
  /-- The tuples whose matches the mean has taken. -/
  taken : List Tuple := []
  /-- The tuples whose matches wait for the mean. -/
  matched : List Tuple := []
  /-- The tuples that wait for the match. -/
  passed : List Tuple := []
  /-- The tuples that the stream has not passed on. -/
  arriving : List Tuple := []
  /-- Whether the last commit is open. -/
  isOpen : Bool := false

/-- All tuples of a segment. -/
def Segment.tuples (segment : Segment) : List Tuple :=
  segment.taken ++ segment.matched ++ segment.passed ++ segment.arriving

/-- A world in which the tuples of a segment are where it says. -/
structure WorksOn (pipeline : Pipeline) (snapshot : Snapshot) (world : World)
    (segment : Segment) : Prop where
  /-- The stream has what is arriving. -/
  source : ∃ arrivals, world.memory? pipeline.source.id = some (.source arrivals) ∧
    arrivals.queue = segment.arriving
  /-- The match takes what has been passed on. -/
  passed : (world.output pipeline.source.id).queue = segment.passed
  /-- What has been passed on can be delivered again. -/
  backup : (world.output pipeline.source.id).isProtected = true →
    (world.output pipeline.source.id).backup = segment.taken ++ segment.matched ++ segment.passed
  /-- The match remembers nothing. -/
  stateless : world.memory? pipeline.combine.id = some .stateless
  /-- The mean takes what has been matched. -/
  matched : (world.output pipeline.combine.id).queue =
    segment.matched.flatMap (pipeline.sends snapshot)
  /-- The mean remembers what it has taken. -/
  mean : ∃ aggregation, world.memory? pipeline.mean.id = some (.aggregate aggregation) ∧
    aggregation.synopsis = pipeline.synopsis snapshot segment.taken ∧
      aggregation.pendingCommit = segment.isOpen

/-- What an evaluation makes of a segment, what the mean sends and what the scheduler gets to know.
-/
inductive Evolves (pipeline : Pipeline) (snapshot : Snapshot) (role : CommitRole)
    (before : Segment) : Segment → List Tuple → Step → Prop
  /-- Tuples move on before the mean, or nothing happens. -/
  | moves {after : Segment} {step : Step} (tuples_eq : after.tuples = before.tuples)
      (taken_eq : after.taken = before.taken) (open_eq : after.isOpen = before.isOpen)
      (quiet : step.isSignal = false) : Evolves pipeline snapshot role before after [] step
  /-- An open commit is closed because a tuple waits. -/
  | closes {tuple : Tuple} {rest : List Tuple} (opened : before.isOpen = true)
      (waits : before.matched = tuple :: rest) :
      Evolves pipeline snapshot role before { before with isOpen := false } []
        (.pendingAbort tuple.lowWater)
  /-- The mean takes the match of a tuple. -/
  | takes {tuple : Tuple} {rest sent : List Tuple} {step : Step} (completes : Bool)
      (closed : before.isOpen = false) (waits : before.matched = tuple :: rest)
      (means_eq : pipeline.means snapshot (before.taken ++ [tuple]) =
        pipeline.means snapshot before.taken ++ dataOf sent)
      (commits_eq : pipeline.commits snapshot (before.taken ++ [tuple]) =
        pipeline.commits snapshot before.taken + completes.toNat)
      (commits : (role.signalsCommit && completes) = true → ∃ mark, step = .commit mark)
      (quiet : (role.signalsCommit && completes) = false → step.isSignal = false) :
      Evolves pipeline snapshot role before
        { before with
          taken := before.taken ++ [tuple]
          matched := rest
          isOpen := role.signalsCommit && role.defersClose && completes }
        sent step

/-- An evaluation of the mean sends tuples, and the segment evolves by them. -/
def EvaluatesMean (pipeline : Pipeline) (snapshot : Snapshot) (role : CommitRole) (world : World)
    (segment : Segment) (sent : List Tuple) : Prop :=
  ∃ after step, (world.evaluate role pipeline.tree).2 = .ok step ∧
    pipeline.WorksOn snapshot (world.evaluate role pipeline.tree).1 after ∧
    pipeline.Evolves snapshot role segment after sent step ∧
    ((world.evaluate role pipeline.tree).1.output pipeline.mean.id).queue =
      (world.output pipeline.mean.id).queue ++ sent ∧
    ((world.evaluate role pipeline.tree).1.output pipeline.source.id).isProtected =
      (world.output pipeline.source.id).isProtected

namespace WorksOn

variable {world : World} {segment : Segment} {role : CommitRole}

/-! ## The stream -/

/-- The stream passes a tuple on, if there is one. -/
theorem evaluate_stream (works : pipeline.WorksOn snapshot world segment)
    (places : pipeline.HasPlaces) (role : CommitRole) :
    ∃ after step, (world.evaluate role pipeline.stream).2 = .ok step ∧
      pipeline.WorksOn snapshot (world.evaluate role pipeline.stream).1 after ∧
      (∀ part, pipeline.Evolves snapshot part segment after [] step) ∧
      ((world.evaluate role pipeline.stream).1.output pipeline.source.id).isProtected =
        (world.output pipeline.source.id).isProtected := by
  obtain ⟨arrivals, remembered, arriving⟩ := works.source
  cases waits : arrivals.queue with
  | nil =>
      have idle : world.evaluate role pipeline.stream = (world, .ok .idle) :=
        World.evaluate_source_of_nil role remembered waits
      rw [idle]
      exact ⟨segment, .idle, rfl, works, fun _ => .moves rfl rfl rfl rfl, rfl⟩
  | cons tuple rest =>
      obtain ⟨sends, evaluated⟩ :=
        World.evaluate_source_of_cons role remembered waits
      change World.Sends _ _ _ _ world (world.evaluate role pipeline.stream).1 at sends
      have arriving_eq : segment.arriving = tuple :: rest := arriving ▸ waits
      refine ⟨{ segment with passed := segment.passed ++ [tuple], arriving := rest }, _, evaluated,
        { source := ⟨_, sends.memory, rfl⟩
          passed := ?_
          backup := fun guarded => ?_
          stateless := ?_
          matched := ?_
          mean := ?_ },
        fun _ => .moves ?_ rfl rfl rfl, ?_⟩
      · rw [sends.self, Channel.enqueueAll_queue, works.passed]
      · rw [sends.self] at guarded ⊢
        have was_guarded : (world.output pipeline.source.id).isProtected = true := guarded
        simp only [Channel.enqueueAll, List.foldl_cons, List.foldl_nil, Channel.enqueue,
          was_guarded, if_true, works.backup was_guarded, List.append_assoc]
      · rw [sends.memories _ places.source_ne_combine.symm, works.stateless]
      · rw [sends.others _ places.source_ne_combine.symm List.not_mem_nil, works.matched]
      · rw [sends.memories _ places.source_ne_mean.symm]
        exact works.mean
      · simp [Segment.tuples, arriving_eq]
      · rw [sends.self]
        rfl

/-! ## The match -/

/-- The match takes a tuple and sends on what it makes of it. -/
theorem of_match (works : pipeline.WorksOn snapshot world segment) (places : pipeline.HasPlaces)
    {rest : List Tuple} (waits : segment.passed = tuple :: rest) {after : World}
    (sends : World.Sends pipeline.combine.id [pipeline.source.id]
      (pipeline.sends snapshot tuple) .stateless world after) :
    pipeline.WorksOn snapshot after
        { segment with matched := segment.matched ++ [tuple], passed := rest } ∧
      (after.output pipeline.source.id).isProtected =
        (world.output pipeline.source.id).isProtected := by
  have drained := sends.inputs _ (List.mem_singleton_self _)
  refine ⟨{
    source := ?_
    passed := ?_
    backup := fun guarded => ?_
    stateless := sends.memory
    matched := ?_
    mean := ?_ }, by rw [drained]⟩
  · rw [sends.memories _ places.source_ne_combine]
    exact works.source
  · rw [drained]
    simp [works.passed, waits]
  · rw [drained] at guarded ⊢
    simp [works.backup guarded, waits]
  · rw [sends.self, Channel.enqueueAll_queue, works.matched, List.flatMap_append,
      List.flatMap_singleton]
  · rw [sends.memories _ places.combine_ne_mean.symm]
    exact works.mean

/-- The match takes a tuple, if there is one, and reads the relation for it if it carries data. -/
theorem evaluate_matching (works : pipeline.WorksOn snapshot world segment)
    (places : pipeline.HasPlaces) (role : CommitRole) {mode : Mode}
    (offers : world.Offers mode pipeline.reference.place (· = snapshot))
    (once : ∀ input ∈ dataOf segment.tuples, pipeline.AnswersOnce snapshot input) :
    ∃ after step, (world.evaluate role pipeline.matching).2 = .ok step ∧
      pipeline.WorksOn snapshot (world.evaluate role pipeline.matching).1 after ∧
      (∀ part, pipeline.Evolves snapshot part segment after [] step) ∧
      (world.evaluate role pipeline.matching).1.Offers mode pipeline.reference.place
        (· = snapshot) ∧
      ((world.evaluate role pipeline.matching).1.output pipeline.source.id).isProtected =
        (world.output pipeline.source.id).isProtected := by
  have different : pipeline.stream.id ≠ pipeline.combine.id := places.source_ne_combine
  have settled : world.hasPendingCommit pipeline.combine.id = false := by
    rw [World.hasPendingCommit_eq, works.stateless]
    rfl
  cases waits : segment.passed with
  | nil =>
      have idle : world.evaluate role pipeline.matching = (world, .ok .idle) :=
        World.evaluate_single_of_nil role _ (works.passed.trans waits)
      rw [idle]
      exact ⟨segment, .idle, rfl, works, fun _ => .moves rfl rfl rfl rfl, offers, rfl⟩
  | cons tuple rest =>
      have moved : Segment.tuples
          { segment with matched := segment.matched ++ [tuple], passed := rest } =
            segment.tuples := by
        simp [Segment.tuples, waits]
      cases is_marker : tuple.isEndOfStream with
      | true =>
          have sends_eq : pipeline.sends snapshot tuple = [tuple] := sends_of_marker is_marker
          obtain ⟨sends, evaluated, catalog_eq⟩ := World.evaluate_single_of_marker role
            (.combine pipeline.reference pipeline.condition) works.stateless settled
            different (works.passed.trans waits) is_marker
          rw [← sends_eq] at sends
          obtain ⟨works, guarded⟩ := works.of_match places waits sends
          exact ⟨_, _, evaluated, works, fun _ => .moves moved rfl rfl rfl,
            offers.of_catalog_eq catalog_eq, guarded⟩
      | false =>
          have answers := once tuple (List.mem_filter.mpr
            ⟨by simp [Segment.tuples, waits], by simp [is_marker]⟩)
          obtain ⟨relation, catalog, found, id_eq, read, next⟩ := offers.exists_constant_read
          obtain ⟨sends, ⟨step, evaluated, quiet⟩, catalog_eq⟩ := World.evaluate_combine
            role works.stateless settled different (works.passed.trans waits) is_marker found read
            (id_eq ▸ answers.matched)
          rw [← sends_of_data is_marker] at sends
          obtain ⟨works, guarded⟩ := works.of_match places waits sends
          exact ⟨_, step, evaluated, works, fun _ => .moves moved rfl rfl quiet, next _ catalog_eq,
            guarded⟩

/-! ## The mean -/

/-- What waits for the mean is the match of a tuple and those of the others. -/
theorem match_waits (works : pipeline.WorksOn snapshot world segment) {result : Tuple}
    {rest : List Tuple} (waits : segment.matched = tuple :: rest)
    (sends_eq : pipeline.sends snapshot tuple = [result]) :
    (world.output pipeline.combine.id).queue =
      result :: rest.flatMap (pipeline.sends snapshot) := by
  rw [works.matched, waits, List.flatMap_cons, sends_eq]
  rfl

/-- The mean takes the match of a tuple. -/
theorem of_mean (works : pipeline.WorksOn snapshot world segment) (places : pipeline.HasPlaces)
    {rest results : List Tuple} (waits : segment.matched = tuple :: rest)
    (single : (pipeline.sends snapshot tuple).length = 1) {aggregation : Aggregation}
    (synopsis_eq : aggregation.synopsis = pipeline.synopsis snapshot (segment.taken ++ [tuple]))
    {after : World}
    (sends : World.Sends pipeline.mean.id [pipeline.combine.id] results (.aggregate aggregation)
      world after) :
    pipeline.WorksOn snapshot after
        { segment with
          taken := segment.taken ++ [tuple]
          matched := rest
          isOpen := aggregation.pendingCommit } ∧
      (after.output pipeline.source.id).isProtected =
        (world.output pipeline.source.id).isProtected := by
  have source_kept := sends.others _ places.source_ne_mean
    (by simpa using places.source_ne_combine)
  refine ⟨{
    source := ?_
    passed := by rw [source_kept, works.passed]
    backup := fun guarded => ?_
    stateless := by rw [sends.memories _ places.combine_ne_mean, works.stateless]
    matched := ?_
    mean := ⟨aggregation, sends.memory, synopsis_eq, rfl⟩ }, by rw [source_kept]⟩
  · rw [sends.memories _ places.source_ne_mean]
    exact works.source
  · rw [source_kept] at guarded ⊢
    simp [works.backup guarded, waits]
  · obtain ⟨result, sends_eq⟩ := List.length_eq_one_iff.mp single
    rw [sends.inputs _ (List.mem_singleton_self _), works.match_waits waits sends_eq]
    rfl

/-- An open commit is closed when a tuple waits. -/
theorem evaluate_tree_of_open (works : pipeline.WorksOn snapshot world segment)
    (places : pipeline.HasPlaces) (role : CommitRole) (opened : segment.isOpen = true)
    {rest : List Tuple} (waits : segment.matched = tuple :: rest)
    (single : (pipeline.sends snapshot tuple).length = 1) :
    (world.evaluate role pipeline.tree).2 = .ok (.pendingAbort tuple.lowWater) ∧
      pipeline.WorksOn snapshot (world.evaluate role pipeline.tree).1
        { segment with isOpen := false } ∧
      ∀ id, (world.evaluate role pipeline.tree).1.output id = world.output id := by
  obtain ⟨aggregation, remembered, synopsis_eq, open_eq⟩ := works.mean
  obtain ⟨result, sends_eq⟩ := List.length_eq_one_iff.mp single
  have result_waits := works.match_waits waits sends_eq
  have lowWater_eq : result.lowWater = tuple.lowWater :=
    lowWater_of_mem_sends (by rw [sends_eq]; exact List.mem_singleton_self _)
  obtain ⟨sends, evaluated, _⟩ := World.evaluate_aggregate_of_open role
    pipeline.matching pipeline.window (.mean pipeline.index) remembered (open_eq.trans opened)
    result_waits
  change World.Sends _ _ _ _ world (world.evaluate role pipeline.tree).1 at sends
  have output_eq (id : Nat) : (world.evaluate role pipeline.tree).1.output id =
      world.output id := by
    by_cases same : id = pipeline.mean.id
    · rw [same, sends.self]
      rfl
    · exact sends.others id same List.not_mem_nil
  refine ⟨by rw [← lowWater_eq]; exact evaluated, {
    source := ?_
    passed := by rw [output_eq, works.passed]
    backup := fun guarded => ?_
    stateless := by rw [sends.memories _ places.combine_ne_mean, works.stateless]
    matched := by rw [output_eq, works.matched]
    mean := ⟨_, sends.memory, synopsis_eq, rfl⟩ }, output_eq⟩
  · rw [sends.memories _ places.source_ne_mean]
    exact works.source
  · rw [output_eq] at guarded ⊢
    exact works.backup guarded

/-- The mean sends a marker on. -/
theorem evaluate_tree_of_marker (works : pipeline.WorksOn snapshot world segment)
    (places : pipeline.HasPlaces) (role : CommitRole) (closed : segment.isOpen = false)
    {rest : List Tuple} (waits : segment.matched = tuple :: rest)
    (is_marker : tuple.isEndOfStream = true) :
    pipeline.EvaluatesMean snapshot role world segment [tuple] := by
  obtain ⟨aggregation, remembered, synopsis_eq, open_eq⟩ := works.mean
  have different : pipeline.matching.id ≠ pipeline.mean.id := places.combine_ne_mean
  have sends_eq : pipeline.sends snapshot tuple = [tuple] := sends_of_marker is_marker
  have marker_waits := works.match_waits waits sends_eq
  obtain ⟨sends, evaluated, _⟩ := World.evaluate_single_of_marker role
    (.aggregate pipeline.window (.mean pipeline.index)) remembered
    ((World.hasPendingCommit_of_memory? remembered).trans (open_eq.trans closed)) different
    marker_waits is_marker
  obtain ⟨works, guarded⟩ := works.of_mean places waits (by rw [sends_eq]; rfl)
    (by rw [synopsis_append_of_marker _ is_marker, synopsis_eq]) sends
  rw [open_eq, closed] at works
  have unreported : pipeline.reports snapshot (segment.taken ++ [tuple]) =
      pipeline.reports snapshot segment.taken := reports_append_of_marker _ is_marker
  have evolves : pipeline.Evolves snapshot role segment _ [tuple] (.emitted 1) :=
    .takes false closed waits
      (by rw [means, means, unreported, dataOf_cons_of_marker is_marker, dataOf_nil,
        List.append_nil])
      (by rw [commits, commits, unreported]; rfl) (by simp) fun _ => rfl
  rw [Bool.and_false] at evolves
  refine ⟨_, _, evaluated, works, evolves, ?_, guarded⟩
  rw [← Channel.enqueueAll_queue]
  exact congrArg Channel.queue sends.self

/-- The mean accepts a match and sends the results of the windows that it completes. -/
theorem evaluate_tree_of_data (works : pipeline.WorksOn snapshot world segment)
    (places : pipeline.HasPlaces) {role : CommitRole} (unchecked : role.checksConsistency = false)
    (closed : segment.isOpen = false)
    (once : ∀ input ∈ dataOf segment.tuples, pipeline.AnswersOnce snapshot input)
    {rest : List Tuple} (waits : segment.matched = tuple :: rest)
    (is_data : tuple.isEndOfStream = false) :
    ∃ sent, pipeline.EvaluatesMean snapshot role world segment sent := by
  obtain ⟨aggregation, remembered, synopsis_eq, open_eq⟩ := works.mean
  have different : pipeline.matching.id ≠ pipeline.mean.id := places.combine_ne_mean
  have answers := once tuple (List.mem_filter.mpr
    ⟨by simp [Segment.tuples, waits], by simp [is_data]⟩)
  obtain ⟨result, matched⟩ := List.length_eq_one_iff.mp answers.single
  have result_mem : result ∈ pipeline.matchesOf snapshot tuple := by
    rw [matched]
    exact List.mem_singleton_self _
  have sends_eq : pipeline.sends snapshot tuple = [result] := by
    rw [sends_of_data is_data, matched]
  have result_waits := works.match_waits waits sends_eq
  obtain ⟨sends, evaluated, _⟩ := World.evaluate_aggregate role
    pipeline.window (.mean pipeline.index) remembered
    (open_eq.trans closed) different result_waits (isEndOfStream_of_mem_matchesOf result_mem)
  have total (window : Contents) (reported : window ∈ (aggregation.synopsis.enqueue result).2) :
      ∃ mean, (AggregateFunction.mean pipeline.index).apply pipeline.mean.schema window =
        .ok mean := by
    rw [synopsis_eq] at reported
    refine exists_mean_of_report (fun input member => ?_) (answers.numeric result result_mem)
      reported
    refine (once input ?_).toAnswers
    simp only [Segment.tuples, dataOf_append, List.mem_append]
    exact .inl (.inl (.inl member))
  obtain ⟨completes, step, accepts⟩ := Aggregation.exists_sends unchecked total
  obtain ⟨works, guarded⟩ := works.of_mean places waits (by rw [sends_eq]; rfl)
    (by rw [synopsis_append _ is_data matched, accepts.synopsis_eq, synopsis_eq]) sends
  rw [accepts.pending_eq, open_eq, closed, Bool.false_or] at works
  have reported := reports_append segment.taken is_data matched
  have evolves : pipeline.Evolves snapshot role segment _
      (aggregation.accept (.mean pipeline.index) pipeline.mean.schema role result).2.1 step :=
    .takes completes closed waits
      (by
        rw [means, means, reported, List.flatten_append, List.flatten_singleton,
          List.filterMap_append, accepts.results_eq, dataOf_results, synopsis_eq])
      (by
        rw [commits, commits, reported, List.countP_append, accepts.completes_eq, synopsis_eq,
          List.countP_singleton]
        cases ((pipeline.synopsis snapshot segment.taken).enqueue result).2.isEmpty <;> rfl)
      accepts.commits accepts.quiet
  refine ⟨_, _, step, evaluated.trans accepts.step_eq, works, evolves, ?_, guarded⟩
  rw [← Channel.enqueueAll_queue]
  exact congrArg Channel.queue sends.self

/-- The mean takes a match, if there is one and its last commit is closed. -/
theorem evaluate_tree (works : pipeline.WorksOn snapshot world segment)
    (places : pipeline.HasPlaces) {role : CommitRole} (unchecked : role.checksConsistency = false)
    (once : ∀ input ∈ dataOf segment.tuples, pipeline.AnswersOnce snapshot input) :
    ∃ sent, pipeline.EvaluatesMean snapshot role world segment sent := by
  cases waits : segment.matched with
  | nil =>
      have nothing_waits : (world.output pipeline.matching.id).queue = [] := by
        rw [show pipeline.matching.id = pipeline.combine.id from rfl, works.matched, waits]
        rfl
      have idle : world.evaluate role pipeline.tree = (world, .ok .idle) :=
        World.evaluate_single_of_nil role _ nothing_waits
      refine ⟨[], segment, .idle, ?_⟩
      rw [idle]
      exact ⟨rfl, works, .moves rfl rfl rfl rfl, (List.append_nil _).symm, rfl⟩
  | cons tuple rest =>
      cases opened : segment.isOpen with
      | true =>
          obtain ⟨evaluated, works, output_eq⟩ := works.evaluate_tree_of_open places role opened
            waits (length_sends once (by simp [Segment.tuples, waits]))
          exact ⟨[], _, _, evaluated, works, .closes opened waits,
            by rw [output_eq, List.append_nil], by rw [output_eq]⟩
      | false =>
          cases is_marker : tuple.isEndOfStream with
          | true =>
              exact ⟨[tuple], works.evaluate_tree_of_marker places role opened waits is_marker⟩
          | false => exact works.evaluate_tree_of_data places unchecked opened once waits is_marker

/-! ## The end of a transaction -/

/-- When a transaction ends, the mean starts over with the tuple that waits for it. -/
theorem endTransaction {deployment : Deployment} {execution : Execution}
    (works : pipeline.WorksOn snapshot execution.world segment)
    (plan : pipeline.IsPlanOf deployment) (controlled : deployment.config.mode ≠ .uncontrolled)
    (guarded : (execution.world.output pipeline.source.id).isProtected = true)
    (ordered : segment.tuples.Pairwise Tuple.ComesBefore) {rest : List Tuple}
    (waits : segment.matched = tuple :: rest) :
    pipeline.WorksOn snapshot
        (deployment.schedule.endTransaction execution tuple.lowWater).world
        { passed := segment.matched ++ segment.passed, arriving := segment.arriving } ∧
      ((deployment.schedule.endTransaction execution tuple.lowWater).world.output
        pipeline.source.id).isProtected = true := by
  have redone := plan.isRedoneBy controlled
  have source_output := Schedule.output_endTransaction plan.replaysArea execution tuple.lowWater
    pipeline.source.id
  have combine_output := Schedule.output_endTransaction plan.replaysArea execution tuple.lowWater
    pipeline.combine.id
  have memory_eq := Schedule.memory?_endTransaction plan.replaysArea execution tuple.lowWater
  rw [if_neg fun member => redone.source_not_mem member.1,
    if_pos redone.source_mem_streams] at source_output
  rw [if_pos ⟨redone.combine_mem, redone.combine_ne_commit⟩,
    if_neg redone.combine_not_mem_streams] at combine_output
  -- The backup is sorted, so that the mark takes out what comes before the waiting tuple.
  have backup_eq : (execution.world.output pipeline.source.id).backup.filter
      (fun other => tuple.lowWater ≤ other.lowWater) = segment.matched ++ segment.passed := by
    have kept : (segment.taken ++ (tuple :: (rest ++ segment.passed))).Pairwise
        Tuple.ComesBefore := by
      refine ordered.sublist ?_
      rw [Segment.tuples, waits]
      simp
    obtain ⟨_, later, before⟩ := List.pairwise_append.mp kept
    rw [works.backup guarded, waits, List.append_assoc, List.cons_append]
    refine filter_of_mark (fun other member => (before other member _ List.mem_cons_self).2)
      fun other member => ?_
    rcases List.mem_cons.mp member with rfl | is_later
    · exact Int.le_refl _
    · exact Int.le_of_lt ((List.pairwise_cons.mp later).1 other is_later).2
  obtain ⟨aggregation, remembered, synopsis_eq, _⟩ := works.mean
  refine ⟨{
    source := by rw [memory_eq, if_neg redone.source_not_mem]; exact works.source
    passed := by rw [source_output]; exact backup_eq
    backup := fun _ => by rw [source_output]; exact backup_eq
    stateless := by rw [memory_eq, if_pos redone.combine_mem, works.stateless]; rfl
    matched := by rw [combine_output]; rfl
    mean := ⟨aggregation.reset, by rw [memory_eq, if_pos redone.mean_mem, remembered]; rfl, ?_,
      rfl⟩ },
    by rw [source_output]; exact guarded⟩
  exact (congrArg Synopsis.reset synopsis_eq).trans (reset_synopsis segment.taken)

/-! ## Actions -/

/-- What operators remember and what waits for them stays. -/
theorem frame (works : pipeline.WorksOn snapshot world segment) {after : World}
    (memory_eq : ∀ id, after.memory? id = world.memory? id)
    (passed_eq : (after.output pipeline.source.id).queue =
      (world.output pipeline.source.id).queue)
    (backup : (after.output pipeline.source.id).isProtected = true →
      (after.output pipeline.source.id).backup =
        segment.taken ++ segment.matched ++ segment.passed)
    (matched_eq : (after.output pipeline.combine.id).queue =
      (world.output pipeline.combine.id).queue) : pipeline.WorksOn snapshot after segment where
  source := by rw [memory_eq]; exact works.source
  passed := passed_eq.trans works.passed
  backup := backup
  stateless := by rw [memory_eq, works.stateless]
  matched := matched_eq.trans works.matched
  mean := by rw [memory_eq]; exact works.mean

theorem of_cells_eq (works : pipeline.WorksOn snapshot world segment) {after : World}
    (cells_eq : after.cells = world.cells) : pipeline.WorksOn snapshot after segment := by
  have output_eq (id : Nat) : after.output id = world.output id := by
    rw [World.output, World.output, cells_eq]
  refine works.frame (fun id => ?_) (by rw [output_eq]) ?_ (by rw [output_eq])
  · rw [World.memory?, World.memory?, cells_eq]
  · rw [output_eq]
    exact works.backup

theorem arrive (works : pipeline.WorksOn snapshot world segment) (places : pipeline.HasPlaces)
    (tuple : Tuple) :
    pipeline.WorksOn snapshot (world.modifyArrivals pipeline.source.id (·.enqueue tuple))
      { segment with arriving := segment.arriving ++ [tuple] } := by
  have memory_of_ne {id : Nat} (different : id ≠ pipeline.source.id) :=
    World.memory?_modifyArrivals_of_ne world pipeline.source.id (·.enqueue tuple) different
  obtain ⟨arrivals, remembered, arriving⟩ := works.source
  exact {
    source := ⟨_, World.memory?_modifyArrivals_self _ _ _ remembered,
      congrArg (· ++ [tuple]) arriving⟩
    passed := by rw [World.output_modifyArrivals, works.passed]
    backup := by rw [World.output_modifyArrivals]; exact works.backup
    stateless := by rw [memory_of_ne places.source_ne_combine.symm, works.stateless]
    matched := by rw [World.output_modifyArrivals, works.matched]
    mean := by rw [memory_of_ne places.source_ne_mean.symm]; exact works.mean }

theorem collect (works : pipeline.WorksOn snapshot world segment) (places : pipeline.HasPlaces) :
    pipeline.WorksOn snapshot (world.modifyOutput pipeline.mean.id Channel.clear) segment := by
  have output_eq {id : Nat} (different : id ≠ pipeline.mean.id) :
      (world.modifyOutput pipeline.mean.id Channel.clear).output id = world.output id :=
    World.output_modifyCell_of_ne world different _
  refine works.frame (World.memory?_modifyOutput world pipeline.mean.id · Channel.clear) ?_ ?_ ?_
  · rw [output_eq places.source_ne_mean]
  · rw [output_eq places.source_ne_mean]
    exact works.backup
  · rw [output_eq places.combine_ne_mean]

/-- At the start there are no tuples, and the stream is backed up if anything is controlled. -/
theorem start {deployment : Deployment} (plan : pipeline.IsPlanOf deployment)
    (snapshot : Snapshot) :
    pipeline.WorksOn snapshot deployment.start.world {} ∧
      (deployment.start.world.output pipeline.source.id).isProtected =
        decide (deployment.config.mode ≠ .uncontrolled) := by
  have found (operator : QueryTree) (member : operator ∈ deployment.tree.postOrder) :=
    deployment.getElem?_start member
  rw [← deployment.order_eq, plan.order_eq, plan.replaysArea] at found
  have source_found := found pipeline.stream (by simp)
  have combine_found := found pipeline.matching (by simp)
  have output_eq : deployment.start.world.output pipeline.source.id =
      { isProtected := decide (pipeline.source.id ∈ deployment.schedule.redo.streams) } :=
    World.output_of_getElem? source_found
  have combine_queue : (deployment.start.world.output pipeline.combine.id).queue = [] :=
    congrArg Channel.queue (World.output_of_getElem? combine_found)
  constructor
  · exact {
      source := ⟨{}, World.memory?_of_getElem? source_found, rfl⟩
      passed := by rw [output_eq]
      backup := fun _ => by rw [output_eq]; rfl
      stateless := World.memory?_of_getElem? combine_found
      matched := combine_queue
      mean := ⟨_, World.memory?_of_getElem? (found pipeline.tree (by simp)), rfl, rfl⟩ }
  · rw [output_eq]
    by_cases uncontrolled : deployment.config.mode = .uncontrolled
    · simp [deployment.redo_of_uncontrolled uncontrolled, uncontrolled]
    · simp [plan.redo_eq uncontrolled, uncontrolled]

end WorksOn

end Pipeline

end StreamQuery
