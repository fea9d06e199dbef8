import StreamQuery.Proofs.Confluence.Accounts
import StreamQuery.Proofs.Confluence.Steps
import StreamQuery.Proofs.Pipeline.Meetings

/-!
# Runs of confluences

Throughout a run a confluence follows a course that accounts for the evaluations so far.
-/

namespace StreamQuery

namespace Confluence

/-- The actions of a run: tuples arrive at both streams, and results are collected. -/
def Allows (plan : Confluence) : Action → Prop
  | .arrive source _ => source = plan.left.id ∨ source = plan.right.id
  | .load _ _ => False
  | .update _ _ => True
  | .collect operator => operator = plan.mean.id
  | .setBatchCount _ => True
  | .wakeUp => True

instance (plan : Confluence) : DecidablePred plan.Allows
  | .arrive source _ => inferInstanceAs (Decidable (source = plan.left.id ∨ source = plan.right.id))
  | .load _ _ => .isFalse id
  | .update _ _ => .isTrue trivial
  | .collect operator => inferInstanceAs (Decidable (operator = plan.mean.id))
  | .setBatchCount _ => .isTrue trivial
  | .wakeUp => .isTrue trivial

/-- What arrives at both streams: tuples in order, of which each one with data on the left has one
match. -/
structure Supplies (plan : Confluence) (rows left right : List Tuple) : Prop where
  left_timed : IsTimed left
  right_timed : IsTimed right
  once : ∀ input ∈ dataOf left, plan.condition.MatchesOnce input rows

/-- Where a confluence is after a part of a run. -/
structure Reaches (plan : Confluence) (left right : List Tuple) (log : List Firing) (world : World)
    (course : Course) : Prop where
  shows_course : plan.Shows world course
  accounts : course.Accounts log
  /-- All arrivals on the left are on the lane. -/
  left_eq : course.left.passed ++ course.left.arriving = left
  /-- All arrivals on the right are on the lane. -/
  right_eq : course.right.passed ++ course.right.arriving = right

variable {plan : Confluence} {deployment : Deployment} {rows left right : List Tuple}
  {log : List Firing} {world : World} {course after : Course} {execution : Execution}

theorem Supplies.sublist {leftPart rightPart : List Tuple}
    (supplies : plan.Supplies rows left right) (left_part : leftPart.Sublist left)
    (right_part : rightPart.Sublist right) :
    plan.Supplies rows leftPart rightPart where
  left_timed := supplies.left_timed.sublist left_part
  right_timed := supplies.right_timed.sublist right_part
  once input member := supplies.once input ((left_part.filter _).subset member)

namespace Reaches

/-! ## Turns -/

/-- What an evaluation makes of the course. -/
theorem evaluate (reaches : plan.Reaches left right log world course)
    (runs : plan.RunsIn deployment) (optimistic : world.catalog.access.mode = .optimistic)
    {relation : Relation} (found : world.relation? plan.reference.place = some relation)
    (once : ∀ input ∈ dataOf left, plan.condition.MatchesOnce input relation.rows)
    {operator : QueryTree} (member : operator ∈ deployment.schedule.order) :
    ∃ after, plan.Shows (world.evaluate (deployment.schedule.role operator.id) operator).1 after ∧
      Evolves course after (deployment.schedule.fire operator world).windows
        (deployment.schedule.fire operator world).sent
        (world.evaluate (deployment.schedule.role operator.id) operator).2 := by
  have places := runs.hasPlaces
  have shows_course := reaches.shows_course
  have sound := reaches.accounts.sound
  have passed_once : ∀ input ∈ dataOf course.left.passed,
      plan.condition.MatchesOnce input relation.rows := fun input inside => once input (by
    rw [← reaches.left_eq, dataOf_append]
    exact List.mem_append_left _ inside)
  rw [runs.order_eq] at member
  simp only [List.mem_cons, List.not_mem_nil, or_false] at member
  rcases member with rfl | rfl | rfl | rfl | rfl
  · obtain ⟨after, shows_after, leads, quiet⟩ := shows_course.evaluate_left _ places sound
    exact ⟨after, shows_after, .moves leads quiet⟩
  · obtain ⟨after, shows_after, leads, quiet⟩ :=
      shows_course.evaluate_matching _ places sound optimistic found passed_once
    exact ⟨after, shows_after, .moves leads quiet⟩
  · obtain ⟨after, shows_after, leads, quiet⟩ := shows_course.evaluate_right _ places sound
    exact ⟨after, shows_after, .moves leads quiet⟩
  · obtain ⟨after, shows_after, leads, quiet⟩ := shows_course.evaluate_joining _ places sound
    exact ⟨after, shows_after, .moves leads quiet⟩
  · have role_eq : deployment.schedule.role plan.tree.id = .of .optimistic true := runs.role_mean
    obtain ⟨after, _, shows_after, rfl, evolves⟩ :=
      shows_course.evaluate_mean _ places sound role_eq
    exact ⟨after, shows_after, evolves⟩

/-- What leads on keeps the streams. -/
theorem of_leads (reaches : plan.Reaches left right log world course) (leads : course.Leads after)
    {later : List Firing} {next : World} (shows_after : plan.Shows next after)
    (accounts : after.Accounts later) : plan.Reaches left right later next after where
  shows_course := shows_after
  accounts := accounts
  left_eq := leads.left.stream.trans reaches.left_eq
  right_eq := leads.right.stream.trans reaches.right_eq

/-- An evaluation that fails is followed by nothing. -/
theorem fail (reaches : plan.Reaches left right log world course) {firing : Firing}
    {error : OperatorError} {next : World} (shows_after : plan.Shows next after)
    (evolves : Evolves course after firing.windows firing.sent (.error error)) :
    plan.Reaches left right (log ++ [firing]) next after := by
  generalize windows_eq : firing.windows = windows at evolves
  generalize sent_eq : firing.sent = sent at evolves
  cases evolves with
  | moves leads _ =>
      exact reaches.of_leads leads shows_after
        (reaches.accounts.pass leads (by simp [windows_eq]) fun window commits => by
          simpa [windows_eq] using commits.windows_eq)
  | completes leads taken done reached settles =>
      cases settles with
      | fails =>
          exact reaches.of_leads leads shows_after
            (reaches.accounts.pass leads (by simpa [windows_eq] using taken) fun window commits =>
              commits.sent_ne sent_eq)

/-- The scheduler reacts to an evaluation. -/
theorem react (reaches : plan.Reaches left right log world course) (runs : plan.RunsIn deployment)
    {firing : Firing} {step : Step} (shows_after : plan.Shows execution.world after)
    (evolves : Evolves course after firing.windows firing.sent (.ok step)) :
    ∃ next, plan.Reaches left right (log ++ [firing])
      (deployment.schedule.react execution step).world next := by
  generalize windows_eq : firing.windows = windows at evolves
  generalize sent_eq : firing.sent = sent at evolves
  have react_eq : deployment.schedule.react execution step =
      deployment.schedule.reactOptimistically execution step := by
    rw [Schedule.react, runs.schedule_mode]
  cases evolves with
  | moves leads quiet =>
      rw [Schedule.react_eq_self_of_isSignal_eq_false _ _ _ (quiet step rfl)]
      exact ⟨after, reaches.of_leads leads shows_after
        (reaches.accounts.pass leads (by simp [windows_eq]) fun window commits => by
          simpa [windows_eq] using commits.windows_eq)⟩
  | @completes window _ _ leads taken done reached settles =>
      have only : ∀ other ∈ firing.windows, other.tuples ⊆ course.begun ++ course.joined := by
        simpa [windows_eq] using taken
      cases settles with
      | mixed inconsistent =>
          have mixes : firing.Mixes := ⟨window, by simp [windows_eq], inconsistent⟩
          have accounts := reaches.accounts.redo leads only
            (fun other commits => commits.sent_ne sent_eq) mixes
          have moved := reaches.of_leads leads shows_after
            (reaches.accounts.lead leads)
          rw [react_eq]
          exact ⟨after.rewind, shows_after.redo runs leads.sound, accounts, moved.left_eq,
            moved.right_eq⟩
      | commits result =>
          have evicts := leads.sound.evict window.mark
          have moved := reaches.of_leads leads shows_after (reaches.accounts.lead leads)
          rw [react_eq]
          exact ⟨_, moved.of_leads evicts (shows_after.commit runs window.mark)
            (reaches.accounts.commit leads windows_eq taken done reached)⟩

/-- A turn of the scheduler. -/
theorem turn (reaches : plan.Reaches left right log execution.world course)
    (runs : plan.RunsIn deployment) (optimistic : execution.world.catalog.access.mode = .optimistic)
    {relation : Relation} (found : execution.world.relation? plan.reference.place = some relation)
    (once : ∀ input ∈ dataOf left, plan.condition.MatchesOnce input relation.rows) :
    ∃ next, plan.Reaches left right (log ++ deployment.schedule.firings execution)
      (deployment.schedule.wakeUp execution).1.world next := by
  have preserves : deployment.schedule.Preserves (fun _ => False) fun log world =>
      (∃ course, plan.Reaches left right log world course) ∧
        world.catalog = execution.world.catalog := by
    refine ⟨fun log world operator next error member holds evaluated => ?_,
      fun log world operator next step following member holds evaluated world_eq => ?_,
      fun _ _ _ impossible => impossible.elim⟩
    · obtain ⟨⟨course, reaches⟩, same⟩ := holds
      obtain ⟨after, shows_after, evolves⟩ := reaches.evaluate runs (by rwa [same])
        (by rwa [World.relation?, same]) once member
      -- Nothing is locked or copied, so that the catalog stays as it is.
      have kept := World.evaluate_catalog_of_optimistic (by rwa [same])
        (deployment.schedule.role operator.id) operator
      rw [evaluated] at shows_after evolves kept
      exact ⟨⟨after, reaches.fail shows_after evolves⟩, kept.trans same⟩
    · obtain ⟨⟨course, reaches⟩, same⟩ := holds
      obtain ⟨after, shows_after, evolves⟩ := reaches.evaluate runs (by rwa [same])
        (by rwa [World.relation?, same]) once member
      have kept := Schedule.react_catalog_of_evaluate runs.schedule_mode (by rwa [same]) evaluated
        world_eq
      rw [evaluated] at shows_after evolves
      rw [← world_eq] at shows_after
      exact ⟨reaches.react runs shows_after evolves, kept.trans same⟩
  exact (preserves.turn ⟨⟨course, reaches⟩, rfl⟩).1

/-! ## Other actions -/

theorem arrive_left (reaches : plan.Reaches left right log world course) (places : plan.HasPlaces)
    {tuple : Tuple} (timed : IsTimed (left ++ [tuple])) :
    ∃ next, plan.Reaches (left ++ [tuple]) right log
      (world.modifyArrivals plan.left.id (·.enqueue tuple)) next := by
  have left_eq : course.left.passed ++ (course.left.arriving ++ [tuple]) = left ++ [tuple] := by
    rw [← List.append_assoc, reaches.left_eq]
  exact ⟨_, reaches.shows_course.arrive_left places tuple,
    reaches.accounts.arrive (left_eq ▸ timed) reaches.accounts.sound.right.timed, left_eq,
    reaches.right_eq⟩

theorem arrive_right (reaches : plan.Reaches left right log world course)
    (places : plan.HasPlaces) {tuple : Tuple} (timed : IsTimed (right ++ [tuple])) :
    ∃ next, plan.Reaches left (right ++ [tuple]) log
      (world.modifyArrivals plan.right.id (·.enqueue tuple)) next := by
  have right_eq : course.right.passed ++ (course.right.arriving ++ [tuple]) =
      right ++ [tuple] := by
    rw [← List.append_assoc, reaches.right_eq]
  exact ⟨_, reaches.shows_course.arrive_right places tuple,
    reaches.accounts.arrive reaches.accounts.sound.left.timed (right_eq ▸ timed),
    reaches.left_eq, right_eq⟩

end Reaches

/-! ## Runs -/

/-- One more action. -/
theorem Reaches.perform (reaches : plan.Reaches left right log execution.world course)
    (runs : plan.RunsIn deployment) (optimistic : execution.world.catalog.access.mode = .optimistic)
    {relation : Relation} (found : execution.world.relation? plan.reference.place = some relation)
    {action : Action} (allowed : plan.Allows action)
    (supplies : plan.Supplies relation.rows (left ++ arrivalsAt plan.left.id [action])
      (right ++ arrivalsAt plan.right.id [action])) :
    ∃ next, plan.Reaches (left ++ arrivalsAt plan.left.id [action])
      (right ++ arrivalsAt plan.right.id [action])
      (log ++ deployment.schedule.actionFirings execution action)
      (deployment.schedule.perform execution action).world next := by
  have places := runs.hasPlaces
  have quietly {next : World} (no_left : action.arrival? plan.left.id = none)
      (no_right : action.arrival? plan.right.id = none) (external : ¬action.IsTurn)
      (shows_course : plan.Shows next course) :
      plan.Reaches (left ++ arrivalsAt plan.left.id [action])
        (right ++ arrivalsAt plan.right.id [action])
        (log ++ deployment.schedule.actionFirings execution action) next course := by
    rw [arrivalsAt_of_no_arrival no_left, arrivalsAt_of_no_arrival no_right,
      Schedule.actionFirings_of_external _ _ external]
    simpa using { reaches with shows_course }
  have shows_course := reaches.shows_course
  cases action with
  | arrive source tuple =>
      rw [Schedule.actionFirings_of_external _ _ id, List.append_nil]
      rcases allowed with rfl | rfl
      · have no_right : arrivalsAt plan.right.id [.arrive plan.left.id tuple] = [] :=
          arrivalsAt_of_no_arrival (if_neg places.left_ne_right)
        rw [arrivalsAt_arrive, no_right, List.append_nil] at supplies ⊢
        exact reaches.arrive_left places supplies.left_timed
      · have no_left : arrivalsAt plan.left.id [.arrive plan.right.id tuple] = [] :=
          arrivalsAt_of_no_arrival (if_neg places.left_ne_right.symm)
        rw [arrivalsAt_arrive, no_left, List.append_nil] at supplies ⊢
        exact reaches.arrive_right places supplies.right_timed
  | load place row => exact allowed.elim
  | update place change => exact ⟨course, quietly rfl rfl id (shows_course.of_cells_eq places rfl)⟩
  | collect operator =>
      obtain rfl : operator = plan.mean.id := allowed
      exact ⟨course, quietly rfl rfl id (shows_course.collect places)⟩
  | setBatchCount count => exact ⟨course, quietly rfl rfl id shows_course⟩
  | wakeUp =>
      rw [arrivalsAt_of_no_arrival rfl, arrivalsAt_of_no_arrival rfl, List.append_nil,
        List.append_nil] at supplies ⊢
      exact reaches.turn runs optimistic found supplies.once

variable {loading actions : List Action}

/-- Throughout a run a confluence follows a course that accounts for the evaluations so far. -/
theorem reaches_of_run (runs : plan.RunsIn deployment)
    (changes : ∀ action ∈ loading, action.ChangesRelations)
    (allowed : ∀ action ∈ actions, plan.Allows action)
    (leaves : ∀ action ∈ actions, action.LeavesRows) {relation : Relation}
    (found : (deployment.run loading).world.relation? plan.reference.place = some relation)
    (supplies : plan.Supplies relation.rows (arrivalsAt plan.left.id actions)
      (arrivalsAt plan.right.id actions)) :
    ∃ course, plan.Reaches (arrivalsAt plan.left.id actions) (arrivalsAt plan.right.id actions)
      (deployment.trace (loading ++ actions)) (deployment.run (loading ++ actions)).world
      course := by
  induction actions using List.reverseRecOn with
  | nil =>
      obtain ⟨cells_eq, _, trace_eq⟩ :=
        Schedule.performAll_of_changesRelations changes deployment.start
      rw [List.append_nil, Deployment.trace, trace_eq]
      exact ⟨{}, (Shows.start runs).of_cells_eq runs.hasPlaces cells_eq,
        .start Course.isSound_start, rfl, rfl⟩
  | append_singleton earlier action induction =>
      rw [arrivalsAt_append, arrivalsAt_append] at supplies ⊢
      obtain ⟨course, reaches⟩ := induction
        (fun other member => allowed other (List.mem_append_left _ member))
        (fun other member => leaves other (List.mem_append_left _ member))
        (supplies.sublist (List.sublist_append_left _ _) (List.sublist_append_left _ _))
      obtain ⟨current, current_found, rows_eq⟩ := Schedule.performAll_rows found
        deployment.schedule fun other member => leaves other (List.mem_append_left _ member)
      have current_found : (deployment.run (loading ++ earlier)).world.relation?
          plan.reference.place = some current := by
        rw [Deployment.run, Schedule.performAll_append]
        exact current_found
      rw [← List.append_assoc, Deployment.trace_append_singleton, Deployment.run_append_singleton]
      exact reaches.perform runs ((deployment.run_mode (loading ++ earlier)).trans runs.mode_eq)
        current_found (allowed action (by simp)) (rows_eq ▸ supplies)

end Confluence

end StreamQuery
