import StreamQuery.Proofs.Pipeline.HistoryRuns
import StreamQuery.Proofs.Pipeline.Segments

/-!
# Segments of runs

Without control a run is one segment. Under control that prevents conflicts it consists of
transactions, each of which is a segment that ends with the last of its commits: the mean starts
over with the tuple that waits then.
-/

namespace StreamQuery

namespace Pipeline

variable {pipeline : Pipeline} {deployment : Deployment} {snapshot : Snapshot}
  {arrived : List Tuple} {log : List Firing} {world : World} {commits : Nat}
  {ended : List (List Tuple)} {segment : Segment}

/-- Tuples that are divided into transactions, of which the last one need not have ended. -/
structure IsDivided (pipeline : Pipeline) (mode : Mode) (joint : Nat) (snapshot : Snapshot)
    (ended : List (List Tuple)) (current : List Tuple) : Prop where
  /-- Without control no transaction ends. -/
  undivided : mode = .uncontrolled → ended = []
  /-- A transaction that has ended has made all its commits. -/
  complete : mode ≠ .uncontrolled → ∀ tuples ∈ ended, pipeline.commits snapshot tuples = joint
  /-- A transaction goes on until its last commit, and no further. -/
  shortest : mode ≠ .uncontrolled → ∀ tuples ∈ ended ++ [current],
    pipeline.commits snapshot tuples.dropLast < joint

/-- What is known after a part of a run: the segments before the current one, and where the tuples
of the current one are. -/
structure Reaches (pipeline : Pipeline) (deployment : Deployment) (snapshot : Snapshot)
    (arrived : List Tuple) (log : List Firing) (world : World) (commits : Nat)
    (ended : List (List Tuple)) (segment : Segment) : Prop where
  works : pipeline.WorksOn snapshot world segment
  /-- One version of the relation is shown. -/
  offers : world.Offers deployment.config.mode pipeline.reference.place (· = snapshot)
  /-- The stream is backed up if anything is controlled. -/
  guarded : (world.output pipeline.source.id).isProtected =
    decide (deployment.config.mode ≠ .uncontrolled)
  /-- All arrivals belong to segments. -/
  arrived_eq : ended.flatten ++ segment.tuples = arrived
  /-- The results are those of the segments. -/
  results_eq : pipeline.results log =
    (ended ++ [segment.taken]).flatMap (pipeline.means snapshot)
  divided : pipeline.IsDivided deployment.config.mode deployment.config.jointCount snapshot ended
    segment.taken
  /-- The commits of the current transaction are counted. -/
  counted : deployment.config.mode ≠ .uncontrolled →
    commits = pipeline.commits snapshot segment.taken
  /-- There are no more than belong to a transaction. -/
  bounded : deployment.config.mode ≠ .uncontrolled → commits ≤ deployment.config.jointCount
  /-- The last one is open until the next tuple waits. -/
  unfinished : deployment.config.mode ≠ .uncontrolled → segment.isOpen = false →
    commits < deployment.config.jointCount

/-- A pipeline that works on some segment. -/
def Segmented (pipeline : Pipeline) (deployment : Deployment) (snapshot : Snapshot)
    (arrived : List Tuple) (log : List Firing) (world : World) (commits : Nat) : Prop :=
  ∃ ended segment,
    pipeline.Reaches deployment snapshot arrived log world commits ended segment

/-- Tuples that arrive in order, of which each one with data has one match. -/
structure Supplies (pipeline : Pipeline) (snapshot : Snapshot) (arrived : List Tuple) : Prop where
  /-- Nothing arrives after a marker, and each tuple is later than the one before. -/
  ordered : arrived.Pairwise Tuple.ComesBefore
  /-- All data is matched once. -/
  once : ∀ input ∈ dataOf arrived, pipeline.AnswersOnce snapshot input

theorem Supplies.sublist {part : List Tuple} (supplies : pipeline.Supplies snapshot arrived)
    (is_part : part.Sublist arrived) : pipeline.Supplies snapshot part where
  ordered := supplies.ordered.sublist is_part
  once input member := supplies.once input ((is_part.filter _).subset member)

theorem Reaches.tuples_sublist
    (reaches : pipeline.Reaches deployment snapshot arrived log world commits ended segment) :
    segment.tuples.Sublist arrived := by
  rw [← reaches.arrived_eq]
  exact List.sublist_append_right _ _

/-- The mean commits windows if anything is controlled. -/
theorem IsPlanOf.role_spec (plan : pipeline.IsPlanOf deployment)
    (mode : deployment.config.mode ≠ .optimistic) :
    (deployment.schedule.role pipeline.mean.id).checksConsistency = false ∧
      (deployment.schedule.role pipeline.mean.id).signalsCommit =
        decide (deployment.config.mode ≠ .uncontrolled) ∧
      (deployment.schedule.role pipeline.mean.id).defersClose =
        decide (deployment.config.mode ≠ .uncontrolled) := by
  rw [plan.role_mean]
  cases mode_eq : deployment.config.mode with
  | optimistic => exact absurd mode_eq mode
  | _ => exact ⟨rfl, rfl, rfl⟩

theorem isPessimistic_of_ne {mode : Mode} (pessimistic : mode ≠ .optimistic)
    (controlled : mode ≠ .uncontrolled) : mode.isPessimistic = true := by
  cases mode <;> first | rfl | contradiction

/-! ## Evaluations -/

/-- Every operator succeeds. -/
theorem Reaches.evaluate
    (reaches : pipeline.Reaches deployment snapshot arrived log world commits ended segment)
    (plan : pipeline.IsPlanOf deployment) (mode : deployment.config.mode ≠ .optimistic)
    (supplies : pipeline.Supplies snapshot arrived) {operator : QueryTree}
    (member : operator ∈ deployment.schedule.order) :
    ∃ after sent step, (world.evaluate (deployment.schedule.role operator.id) operator).2 =
        .ok step ∧
      pipeline.WorksOn snapshot
        (world.evaluate (deployment.schedule.role operator.id) operator).1 after ∧
      pipeline.Evolves snapshot (deployment.schedule.role pipeline.mean.id) segment after sent
        step ∧
      (world.evaluate (deployment.schedule.role operator.id) operator).1.Offers
        deployment.config.mode pipeline.reference.place (· = snapshot) ∧
      ((world.evaluate (deployment.schedule.role operator.id) operator).1.output
        pipeline.source.id).isProtected = decide (deployment.config.mode ≠ .uncontrolled) ∧
      pipeline.results (log ++ [deployment.schedule.fire operator world]) =
        pipeline.results log ++ dataOf sent := by
  have places := plan.hasPlaces
  have once := (supplies.sublist reaches.tuples_sublist).once
  rw [plan.order_eq] at member
  simp only [List.mem_cons, List.not_mem_nil, or_false] at member
  rcases member with rfl | rfl | rfl
  · obtain ⟨after, step, evaluated, works, evolves, guarded⟩ :=
      reaches.works.evaluate_stream places (deployment.schedule.role pipeline.stream.id)
    refine ⟨after, [], step, evaluated, works, evolves _,
      reaches.offers.of_catalog_eq (World.act_catalog _ _ _), guarded.trans reaches.guarded, ?_⟩
    rw [results_append_of_ne deployment log (show pipeline.stream.id ≠ _ from
      places.source_ne_mean), dataOf_nil, List.append_nil]
  · obtain ⟨after, step, evaluated, works, evolves, offers, guarded⟩ :=
      reaches.works.evaluate_matching places (deployment.schedule.role pipeline.matching.id)
        reaches.offers once
    refine ⟨after, [], step, evaluated, works, evolves _, offers, guarded.trans reaches.guarded, ?_⟩
    rw [results_append_of_ne deployment log (show pipeline.matching.id ≠ _ from
      places.combine_ne_mean), dataOf_nil, List.append_nil]
  · obtain ⟨sent, after, step, evaluated, works, evolves, queue_eq, guarded⟩ :=
      reaches.works.evaluate_tree places (plan.role_spec mode).1 once
    refine ⟨after, sent, step, evaluated, works, evolves,
      reaches.offers.of_catalog_eq (World.evaluate_catalog_of_aggregate _ _ _ _ _ _),
      guarded.trans reaches.guarded, results_append_of_queue_eq deployment log queue_eq⟩

/-! ## Responses -/

namespace Reaches

variable {execution : Execution} {later : List Firing}

theorem react_eq_self (mode_eq : deployment.config.mode = .uncontrolled) (execution : Execution)
    (step : Step) : deployment.schedule.react execution step = execution := by
  rw [Schedule.react, deployment.mode_eq, mode_eq]

/-- Without a response the current segment goes on. -/
theorem move
    (reaches : pipeline.Reaches deployment snapshot arrived log world commits ended segment)
    {after : Segment} (tuples_eq : after.tuples = segment.tuples)
    (taken_eq : after.taken = segment.taken)
    (works : pipeline.WorksOn snapshot execution.world after)
    (offers : execution.world.Offers deployment.config.mode pipeline.reference.place (· = snapshot))
    (guarded : (execution.world.output pipeline.source.id).isProtected =
      decide (deployment.config.mode ≠ .uncontrolled))
    (results_eq : pipeline.results later = pipeline.results log)
    (unfinished : deployment.config.mode ≠ .uncontrolled → after.isOpen = false →
      commits < deployment.config.jointCount) :
    pipeline.Reaches deployment snapshot arrived later execution.world commits ended after where
  works := works
  offers := offers
  guarded := guarded
  arrived_eq := by rw [tuples_eq, reaches.arrived_eq]
  results_eq := by rw [results_eq, taken_eq, reaches.results_eq]
  divided := by rw [taken_eq]; exact reaches.divided
  counted := by rw [taken_eq]; exact reaches.counted
  bounded := reaches.bounded
  unfinished := unfinished

/-- A transaction that has made its last commit ends when the next tuple waits. -/
theorem endTransaction
    (reaches : pipeline.Reaches deployment snapshot arrived log world commits ended segment)
    (plan : pipeline.IsPlanOf deployment) (mode : deployment.config.mode ≠ .optimistic)
    (controlled : deployment.config.mode ≠ .uncontrolled)
    (supplies : pipeline.Supplies snapshot arrived)
    (full : deployment.config.jointCount ≤ commits) {tuple : Tuple} {rest : List Tuple}
    (waits : segment.matched = tuple :: rest)
    (works : pipeline.WorksOn snapshot execution.world { segment with isOpen := false })
    (offers : execution.world.Offers deployment.config.mode pipeline.reference.place (· = snapshot))
    (guarded : (execution.world.output pipeline.source.id).isProtected =
      decide (deployment.config.mode ≠ .uncontrolled))
    (results_eq : pipeline.results later = pipeline.results log) :
    pipeline.Reaches deployment snapshot arrived later
      (deployment.schedule.endTransaction execution tuple.lowWater).world 0
      (ended ++ [segment.taken])
      { passed := segment.matched ++ segment.passed, arriving := segment.arriving } := by
  obtain ⟨works, still_guarded⟩ := works.endTransaction plan controlled
    (guarded.trans (decide_eq_true controlled))
    (supplies.sublist reaches.tuples_sublist).ordered waits
  have joint_pos := deployment.config.jointCount_pos
  have complete : pipeline.commits snapshot segment.taken = deployment.config.jointCount := by
    rw [← reaches.counted controlled]
    exact Nat.le_antisymm (reaches.bounded controlled) full
  refine {
    works := works
    offers := offers.endTransactionAt (isPessimistic_of_ne mode controlled)
      (plan.endTransaction_catalog execution tuple.lowWater)
    guarded := still_guarded.trans (decide_eq_true controlled).symm
    arrived_eq := ?_
    results_eq := ?_
    divided := ⟨fun impossible => absurd impossible controlled, fun _ tuples member => ?_,
      fun _ tuples member => ?_⟩
    counted := fun _ => rfl
    bounded := fun _ => Nat.zero_le _
    unfinished := fun _ _ => joint_pos }
  · rw [← reaches.arrived_eq]
    simp [Segment.tuples]
  · have nothing : [([] : List Tuple)].flatMap (pipeline.means snapshot) = [] := rfl
    refine results_eq.trans (reaches.results_eq.trans ?_)
    exact ((List.append_nil _).symm.trans (congrArg _ nothing.symm)).trans List.flatMap_append.symm
  · rcases List.mem_append.mp member with earlier | last
    · exact reaches.divided.complete controlled tuples earlier
    · rw [List.mem_singleton.mp last, complete]
  · rcases List.mem_append.mp member with earlier | last
    · exact reaches.divided.shortest controlled tuples earlier
    · rw [List.mem_singleton.mp last]
      exact joint_pos

/-- The mean has taken the match of a tuple, by which it may have completed windows. -/
theorem take
    (reaches : pipeline.Reaches deployment snapshot arrived log world commits ended segment)
    {tuple : Tuple} {rest sent : List Tuple} {completes isOpen : Bool}
    (closed : segment.isOpen = false) (waits : segment.matched = tuple :: rest)
    (means_eq : pipeline.means snapshot (segment.taken ++ [tuple]) =
      pipeline.means snapshot segment.taken ++ dataOf sent)
    (commits_eq : pipeline.commits snapshot (segment.taken ++ [tuple]) =
      pipeline.commits snapshot segment.taken + completes.toNat)
    (open_eq : deployment.config.mode ≠ .uncontrolled → isOpen = completes)
    (works : pipeline.WorksOn snapshot execution.world
      { segment with taken := segment.taken ++ [tuple], matched := rest, isOpen })
    (offers : execution.world.Offers deployment.config.mode pipeline.reference.place (· = snapshot))
    (guarded : (execution.world.output pipeline.source.id).isProtected =
      decide (deployment.config.mode ≠ .uncontrolled))
    (results_eq : pipeline.results later = pipeline.results log ++ dataOf sent) {counted : Nat}
    (counted_eq : deployment.config.mode ≠ .uncontrolled →
      counted = commits + completes.toNat) :
    pipeline.Reaches deployment snapshot arrived later execution.world counted ended
      { segment with taken := segment.taken ++ [tuple], matched := rest, isOpen } := by
  refine {
    works := works
    offers := offers
    guarded := guarded
    arrived_eq := ?_
    results_eq := ?_
    divided := ⟨reaches.divided.undivided, reaches.divided.complete,
      fun controlled tuples member => ?_⟩
    counted := fun controlled => ?_
    bounded := fun controlled => ?_
    unfinished := fun controlled still_closed => ?_ }
  · rw [← reaches.arrived_eq]
    simp [Segment.tuples, waits]
  · rw [results_eq, reaches.results_eq, List.flatMap_append, List.flatMap_append,
      List.flatMap_singleton, List.flatMap_singleton, means_eq, List.append_assoc]
  · rcases List.mem_append.mp member with earlier | last
    · exact reaches.divided.shortest controlled tuples (List.mem_append_left _ earlier)
    · rw [List.mem_singleton.mp last, List.dropLast_concat, ← reaches.counted controlled]
      exact reaches.unfinished controlled closed
  · rw [counted_eq controlled, commits_eq, reaches.counted controlled]
  · rw [counted_eq controlled]
    have unfinished := reaches.unfinished controlled closed
    have at_most := Bool.toNat_le completes
    omega
  · have incomplete : completes = false := (open_eq controlled).symm.trans still_closed
    rw [counted_eq controlled, incomplete]
    exact reaches.unfinished controlled closed

/-- The scheduler responds to an evaluation. -/
theorem react
    (reaches : pipeline.Reaches deployment snapshot arrived log world commits ended segment)
    (plan : pipeline.IsPlanOf deployment) (mode : deployment.config.mode ≠ .optimistic)
    (supplies : pipeline.Supplies snapshot arrived) {after : Segment} {sent : List Tuple}
    {step : Step}
    (evolves : pipeline.Evolves snapshot (deployment.schedule.role pipeline.mean.id) segment after
      sent step)
    (works : pipeline.WorksOn snapshot execution.world after)
    (offers : execution.world.Offers deployment.config.mode pipeline.reference.place (· = snapshot))
    (guarded : (execution.world.output pipeline.source.id).isProtected =
      decide (deployment.config.mode ≠ .uncontrolled))
    (results_eq : pipeline.results later = pipeline.results log ++ dataOf sent)
    (commits_eq : execution.openCommits = commits) :
    pipeline.Segmented deployment snapshot arrived later
      (deployment.schedule.react execution step).world
      (deployment.schedule.react execution step).openCommits := by
  obtain ⟨_, signals, defers⟩ := plan.role_spec mode
  have pessimistically (controlled : deployment.config.mode ≠ .uncontrolled) :=
    Schedule.react_of_isPessimistic
      (deployment.mode_eq ▸ isPessimistic_of_ne mode controlled) execution step
  cases evolves with
  | moves tuples_eq taken_eq open_eq quiet =>
      rw [Schedule.react_eq_self_of_isSignal_eq_false _ _ _ quiet, commits_eq]
      rw [dataOf_nil, List.append_nil] at results_eq
      exact ⟨ended, after, reaches.move tuples_eq taken_eq works offers guarded results_eq
        (open_eq ▸ reaches.unfinished)⟩
  | @closes tuple rest opened waits =>
      rw [dataOf_nil, List.append_nil] at results_eq
      by_cases uncontrolled : deployment.config.mode = .uncontrolled
      · rw [react_eq_self uncontrolled, commits_eq]
        exact ⟨ended, { segment with isOpen := false }, reaches.move rfl rfl works offers guarded
          results_eq fun controlled => absurd uncontrolled controlled⟩
      · rw [pessimistically uncontrolled, Schedule.reactPessimistically, commits_eq,
          deployment.jointCount_eq]
        split
        next full =>
          rw [Schedule.endTransaction_openCommits]
          exact ⟨_, _, reaches.endTransaction plan mode uncontrolled supplies full waits works
            offers guarded results_eq⟩
        next unfinished =>
          rw [commits_eq]
          exact ⟨ended, { segment with isOpen := false }, reaches.move rfl rfl works offers guarded
            results_eq fun _ _ => Nat.lt_of_not_le unfinished⟩
  | @takes tuple rest sent step completes closed waits means_eq added committed quiet =>
      have open_eq (controlled : deployment.config.mode ≠ .uncontrolled) :
          ((deployment.schedule.role pipeline.mean.id).signalsCommit &&
            (deployment.schedule.role pipeline.mean.id).defersClose && completes) = completes := by
        simp [signals, defers, controlled]
      have next {world : World} (world_eq : world = execution.world) {counted : Nat}
          (counted_eq : deployment.config.mode ≠ .uncontrolled →
            counted = commits + completes.toNat) :
          pipeline.Segmented deployment snapshot arrived later world counted := by
        rw [world_eq]
        exact ⟨ended, _, reaches.take closed waits means_eq added open_eq works offers guarded
          results_eq counted_eq⟩
      cases reported : ((deployment.schedule.role pipeline.mean.id).signalsCommit && completes) with
      | false =>
          rw [Schedule.react_eq_self_of_isSignal_eq_false _ _ _ (quiet reported)]
          refine next rfl fun controlled => ?_
          rw [signals, decide_eq_true controlled, Bool.true_and] at reported
          rw [reported, commits_eq]
          rfl
      | true =>
          obtain ⟨mark, rfl⟩ := committed reported
          obtain ⟨is_controlled, rfl⟩ := Bool.and_eq_true_iff.mp reported
          rw [signals] at is_controlled
          rw [pessimistically (of_decide_eq_true is_controlled)]
          refine next rfl fun _ => ?_
          rw [Schedule.reactPessimistically, commits_eq]
          rfl

end Reaches

/-! ## Runs -/

namespace Segmented

theorem turn {execution : Execution}
    (segmented : pipeline.Segmented deployment snapshot arrived log execution.world
      execution.openCommits)
    (plan : pipeline.IsPlanOf deployment) (mode : deployment.config.mode ≠ .optimistic)
    (supplies : pipeline.Supplies snapshot arrived) :
    pipeline.Segmented deployment snapshot arrived
      (log ++ deployment.schedule.firings execution)
      (deployment.schedule.wakeUp execution).1.world
      (deployment.schedule.wakeUp execution).1.openCommits := by
  have sustains : deployment.schedule.Sustains (fun _ => False)
      (pipeline.Segmented deployment snapshot arrived) := by
    refine ⟨fun log world commits operator after error member segmented evaluated => ?_,
      fun log world operator after step execution member segmented evaluated world_eq => ?_,
      fun _ _ _ impossible => impossible.elim⟩
    · obtain ⟨ended, segment, reaches⟩ := segmented
      obtain ⟨_, _, _, succeeds, _⟩ := reaches.evaluate plan mode supplies member
      rw [evaluated] at succeeds
      cases succeeds
    · obtain ⟨ended, segment, reaches⟩ := segmented
      obtain ⟨next, sent, expected, succeeds, works, evolves, offers, guarded, results_eq⟩ :=
        reaches.evaluate plan mode supplies member
      rw [evaluated] at succeeds works offers guarded
      obtain rfl : step = expected := Except.ok.inj succeeds
      rw [← world_eq] at works offers guarded
      exact reaches.react plan mode supplies evolves works offers guarded results_eq rfl
  exact sustains.turn segmented

theorem arrive (segmented : pipeline.Segmented deployment snapshot arrived log world commits)
    (places : pipeline.HasPlaces) (tuple : Tuple) :
    pipeline.Segmented deployment snapshot (arrived ++ [tuple]) log
      (world.modifyArrivals pipeline.source.id (·.enqueue tuple)) commits := by
  obtain ⟨ended, segment, reaches⟩ := segmented
  exact ⟨ended, _, { reaches with
    works := reaches.works.arrive places tuple
    offers := reaches.offers.of_catalog_eq rfl
    guarded := by rw [World.output_modifyArrivals, reaches.guarded]
    arrived_eq := by
      rw [← reaches.arrived_eq]
      simp [Segment.tuples] }⟩

theorem collect (segmented : pipeline.Segmented deployment snapshot arrived log world commits)
    (places : pipeline.HasPlaces) :
    pipeline.Segmented deployment snapshot arrived log
      (world.modifyOutput pipeline.mean.id Channel.clear) commits := by
  obtain ⟨ended, segment, reaches⟩ := segmented
  have source_kept : (world.modifyOutput pipeline.mean.id Channel.clear).output
      pipeline.source.id = world.output pipeline.source.id :=
    World.output_modifyCell_of_ne world places.source_ne_mean _
  exact ⟨ended, segment, { reaches with
    works := reaches.works.collect places
    offers := reaches.offers.of_catalog_eq rfl
    guarded := by rw [source_kept, reaches.guarded] }⟩

/-- Another relation can be changed. -/
theorem changeRelation
    (segmented : pipeline.Segmented deployment snapshot arrived log world commits) {place : Nat}
    (other : place ≠ pipeline.reference.place) {change : Relation → Relation}
    (grows : ∀ relation : Relation, relation.Becomes (change relation)) :
    pipeline.Segmented deployment snapshot arrived log (world.changeRelation place change)
      commits := by
  obtain ⟨ended, segment, reaches⟩ := segmented
  obtain ⟨relation, found, shown⟩ := reaches.offers.current
  have offers := reaches.offers.changeRelation grows fun later later_found => by
    rcases World.changeRelation_relation? found place change with kept | ⟨same, _⟩
    · obtain rfl := Option.some.inj (kept.symm.trans later_found)
      exact shown
    · exact absurd same other
  exact ⟨ended, segment, { reaches with
    works := reaches.works.of_cells_eq rfl
    offers
    guarded := reaches.guarded }⟩

end Segmented

end Pipeline

/-- An action that does not change the relation at a place. -/
def Action.Spares (place : Nat) : Action → Prop
  | .load other _ => other ≠ place
  | .update other _ => other ≠ place
  | _ => True

instance (place : Nat) : DecidablePred (Action.Spares place)
  | .load other _ => inferInstanceAs (Decidable (other ≠ place))
  | .update other _ => inferInstanceAs (Decidable (other ≠ place))
  | .arrive _ _ => .isTrue trivial
  | .collect _ => .isTrue trivial
  | .setBatchCount _ => .isTrue trivial
  | .wakeUp => .isTrue trivial

namespace Pipeline

variable {pipeline : Pipeline} {deployment : Deployment} {snapshot : Snapshot}
  {loading actions : List Action}

/-- Once relations are loaded, a pipeline is at its start. -/
theorem segmented_of_loading (plan : pipeline.IsPlanOf deployment)
    (changes : ∀ action ∈ loading, action.ChangesRelations) {relation : Relation}
    (found : (deployment.run loading).world.relation? pipeline.reference.place = some relation) :
    pipeline.Segmented deployment relation.snapshot [] (deployment.trace loading)
      (deployment.run loading).world (deployment.run loading).openCommits := by
  obtain ⟨cells_eq, commits_eq, trace_eq⟩ :=
    Schedule.performAll_of_changesRelations changes deployment.start
  obtain ⟨coherent, kept_eq⟩ : (deployment.run loading).world.catalog.IsCoherent ∧
      ∀ id, (deployment.run loading).world.catalog.kept? id =
        deployment.start.world.catalog.kept? id :=
    Schedule.performAll_kept? changes deployment.start_isCoherent
  obtain ⟨works, guarded⟩ := WorksOn.start plan relation.snapshot
  have joint_pos := deployment.config.jointCount_pos
  refine ⟨[], {}, {
    works := works.of_cells_eq cells_eq
    offers := ⟨deployment.run_mode loading, coherent, ⟨relation, found, rfl⟩,
      fun snapshot kept => ?_⟩
    guarded := ?_
    arrived_eq := rfl
    results_eq := by rw [Deployment.trace, trace_eq]; rfl
    divided := ⟨fun _ => rfl, fun _ tuples member => (nomatch member), fun _ tuples member => ?_⟩
    counted := fun _ => commits_eq
    bounded := fun _ => commits_eq ▸ Nat.zero_le _
    unfinished := fun _ _ => commits_eq ▸ joint_pos }⟩
  · rw [kept_eq, deployment.start_kept?] at kept
    cases kept
  · rw [← guarded, World.output, World.output]
    rw [show (deployment.run loading).world.cells = deployment.start.world.cells from cells_eq]
  · rw [List.mem_singleton.mp member]
    exact joint_pos

/-- Throughout a run a pipeline works on segments. -/
theorem segmented_of_run (plan : pipeline.IsPlanOf deployment)
    (mode : deployment.config.mode ≠ .optimistic)
    (changes : ∀ action ∈ loading, action.ChangesRelations)
    (allowed : ∀ action ∈ actions, pipeline.Allows action)
    (spared : ∀ action ∈ actions, action.Spares pipeline.reference.place) {relation : Relation}
    (found : (deployment.run loading).world.relation? pipeline.reference.place = some relation)
    (supplies : pipeline.Supplies relation.snapshot (arrivalsAt pipeline.source.id actions)) :
    pipeline.Segmented deployment relation.snapshot (arrivalsAt pipeline.source.id actions)
      (deployment.trace (loading ++ actions)) (deployment.run (loading ++ actions)).world
      (deployment.run (loading ++ actions)).openCommits := by
  induction actions using List.reverseRecOn with
  | nil =>
      rw [List.append_nil]
      exact segmented_of_loading plan changes found
  | append_singleton earlier action induction =>
      rw [arrivalsAt_append] at supplies ⊢
      have before := induction
        (fun other member => allowed other (List.mem_append_left _ member))
        (fun other member => spared other (List.mem_append_left _ member))
        (supplies.sublist (List.sublist_append_left _ _))
      have action_allowed := allowed action (by simp)
      have action_spares := spared action (by simp)
      rw [← List.append_assoc, Deployment.trace_append_singleton, Deployment.run_append_singleton]
      generalize deployment.run (loading ++ earlier) = execution at before
      cases action with
      | arrive source tuple =>
          obtain rfl : source = pipeline.source.id := action_allowed
          rw [arrivalsAt_arrive, Schedule.actionFirings_of_external _ _ id, List.append_nil]
          exact before.arrive plan.hasPlaces tuple
      | load place row => exact action_allowed.elim
      | update place change =>
          rw [arrivalsAt_of_no_arrival rfl, Schedule.actionFirings_of_external _ _ id,
            List.append_nil, List.append_nil]
          exact before.changeRelation action_spares fun relation => ⟨rfl, Nat.le_succ _⟩
      | collect operator =>
          obtain rfl : operator = pipeline.mean.id := action_allowed
          rw [arrivalsAt_of_no_arrival rfl, Schedule.actionFirings_of_external _ _ id,
            List.append_nil, List.append_nil]
          exact before.collect plan.hasPlaces
      | setBatchCount count =>
          rw [arrivalsAt_of_no_arrival rfl, Schedule.actionFirings_of_external _ _ id,
            List.append_nil, List.append_nil]
          exact before
      | wakeUp =>
          rw [arrivalsAt_of_no_arrival rfl, List.append_nil] at supplies ⊢
          exact before.turn plan mode supplies

end Pipeline

end StreamQuery
