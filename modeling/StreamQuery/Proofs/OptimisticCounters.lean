import StreamQuery.Proofs.Engine.Bare
import StreamQuery.Proofs.Engine.Checked
import StreamQuery.Proofs.Engine.Turns
import StreamQuery.Proofs.OptimisticReads
import StreamQuery.Proofs.Tuple.Data

/-!
# Counters of optimistic control

The commit operator counts the windows that it has looked at, those that were consistent and its
results; the scheduler counts commits and repetitions. They are counted in different places, and a
tuple may complete several windows of time at once, some of which are committed before one with
mixed versions is found. As long as no evaluation fails the counts agree.
-/

namespace StreamQuery

/-! ## Steps -/

namespace Step

/-- Whether windows were committed. -/
def commitsWindows : Step → Bool
  | commit _ => true
  | lostConsistency committed? => committed?.isSome
  | _ => false

/-- Whether a window had mixed versions. -/
def losesConsistency : Step → Bool
  | lostConsistency _ => true
  | _ => false

end Step

namespace Schedule

/-- Whether an operator did not fail when it was evaluated. -/
def succeeds (schedule : Schedule) (firing : Firing) : Bool :=
  (firing.before.evaluate (schedule.role firing.operator.id) firing.operator).2.isOk

theorem react_of_optimistic {schedule : Schedule} (mode : schedule.mode = .optimistic)
    (execution : Execution) (step : Step) :
    schedule.react execution step = schedule.reactOptimistically execution step := by
  rw [react, mode]

/-- Each commit of windows is counted once, however many windows there are. -/
theorem reactOptimistically_commits (schedule : Schedule) (execution : Execution) (step : Step) :
    (schedule.reactOptimistically execution step).metrics.commits =
      execution.metrics.commits + step.commitsWindows.toNat := by
  cases step with
  | lostConsistency committed? => cases committed? <;> rfl
  | _ => rfl

theorem reactOptimistically_redoCount (schedule : Schedule) (execution : Execution) (step : Step) :
    (schedule.reactOptimistically execution step).metrics.redoCount =
      execution.metrics.redoCount + step.losesConsistency.toNat := by
  cases step with
  | lostConsistency committed? => cases committed? <;> rfl
  | _ => rfl

/-- An operator remembers what it did, or starts over. -/
theorem memory?_reactOptimistically (schedule : Schedule) (execution : Execution) (step : Step)
    (id : Nat) :
    (schedule.reactOptimistically execution step).world.memory? id = execution.world.memory? id ∨
      (schedule.reactOptimistically execution step).world.memory? id =
        (execution.world.memory? id).map Memory.reset := by
  have redone (committed : Execution)
      (kept : committed.world.memory? id = execution.world.memory? id) :
      (schedule.redoArea committed).world.memory? id = execution.world.memory? id ∨
        (schedule.redoArea committed).world.memory? id =
          (execution.world.memory? id).map Memory.reset := by
    rw [memory?_redoArea, kept]
    split
    · exact .inr rfl
    · exact .inl rfl
  cases step with
  | lostConsistency committed? =>
      cases committed? with
      | none => exact redone execution rfl
      | some mark => exact redone _ (memory?_commitBefore execution mark id)
  | commit mark => exact .inl (memory?_commitBefore execution mark id)
  | _ => exact .inl rfl

/-- Actions from outside leave aggregations and counters alone. -/
theorem perform_external (schedule : Schedule) (execution : Execution) {action : Action}
    (external : ¬action.IsTurn) {id : Nat} {aggregation : Aggregation}
    (remembered : execution.world.memory? id = some (.aggregate aggregation)) :
    (schedule.perform execution action).world.memory? id = some (.aggregate aggregation) ∧
      (schedule.perform execution action).metrics = execution.metrics := by
  cases action with
  | arrive source tuple =>
      refine ⟨?_, rfl⟩
      rcases execution.world.memory?_modifyArrivals source (·.enqueue tuple) id with
        ⟨same, _⟩ | ⟨_, arrivals, is_source, _⟩
      · exact same.trans remembered
      · cases remembered.symm.trans is_source
  | collect operator => exact ⟨(World.memory?_modifyOutput _ _ _ _).trans remembered, rfl⟩
  | wakeUp => exact absurd trivial external
  | _ => exact ⟨remembered, rfl⟩

end Schedule

/-! ## Tallies -/

/-- The counters of the scheduler and what was sent agree with those of the commit operator. -/
structure Aggregation.Tallies (window : Window) (metrics : SchedulerMetrics) (sent : List Tuple)
    (aggregation : Aggregation) : Prop where
  /-- No commit is open. -/
  settled : aggregation.pendingCommit = false
  /-- A window of rows is buffered as such. -/
  buffers : window.kind = .rows → ∃ buffer, aggregation.synopsis = .rows buffer
  /-- Each window that was not consistent led to a repetition. -/
  redoCount_eq : metrics.redoCount + aggregation.consistent = aggregation.evaluated
  /-- Each consistent window has a result. -/
  emitted_eq : aggregation.emitted = aggregation.consistent
  /-- The results were sent. -/
  sent_eq : (dataOf sent).length = aggregation.consistent
  /-- Several results may belong to one commit. -/
  commits_le : metrics.commits ≤ aggregation.consistent
  /-- Windows of rows are committed one at a time. -/
  commits_eq : window.kind = .rows → metrics.commits = aggregation.consistent

namespace Aggregation.Tallies

variable {window : Window} {metrics : SchedulerMetrics} {sent : List Tuple}
  {aggregation later : Aggregation}

theorem reset (tallies : aggregation.Tallies window metrics sent) :
    aggregation.reset.Tallies window metrics sent where
  settled := rfl
  buffers rows := by
    obtain ⟨buffer, synopsis_eq⟩ := tallies.buffers rows
    exact ⟨buffer.reset, congrArg Synopsis.reset synopsis_eq⟩
  redoCount_eq := tallies.redoCount_eq
  emitted_eq := tallies.emitted_eq
  sent_eq := tallies.sent_eq
  commits_le := tallies.commits_le
  commits_eq := tallies.commits_eq

/-- Only some of what is counted and sent matters. -/
theorem of_eq (tallies : aggregation.Tallies window metrics sent) {metrics' : SchedulerMetrics}
    {sent' : List Tuple} (commits_eq : metrics'.commits = metrics.commits)
    (redoCount_eq : metrics'.redoCount = metrics.redoCount) (data_eq : dataOf sent' = dataOf sent) :
    aggregation.Tallies window metrics' sent' where
  settled := tallies.settled
  buffers := tallies.buffers
  redoCount_eq := redoCount_eq ▸ tallies.redoCount_eq
  emitted_eq := tallies.emitted_eq
  sent_eq := data_eq ▸ tallies.sent_eq
  commits_le := commits_eq ▸ tallies.commits_le
  commits_eq := commits_eq ▸ tallies.commits_eq

/-- A window of rows is completed alone. -/
theorem length_windows_le (tallies : aggregation.Tallies window metrics sent)
    (rows : window.kind = .rows) (tuple : Tuple) :
    (aggregation.synopsis.enqueue tuple).2.length ≤ 1 := by
  obtain ⟨buffer, synopsis_eq⟩ := tallies.buffers rows
  rw [synopsis_eq]
  change (buffer.enqueue tuple).2.length ≤ 1
  rcases buffer.enqueue_reports tuple with none_reported | reported
  · simp [none_reported]
  · simp [reported]

/-- What an evaluation counts, and what the scheduler counts in response, keeps the tally. -/
theorem turn (tallies : aggregation.Tallies window metrics sent)
    {function : AggregateFunction} {schema : Schema} {windows : List Contents}
    {results : List Tuple} {step : Step}
    (turn : Turns (function.apply schema) aggregation later windows results (.ok step))
    {metrics' : SchedulerMetrics}
    (commits_eq : metrics'.commits = metrics.commits + step.commitsWindows.toNat)
    (redoCount_eq : metrics'.redoCount = metrics.redoCount + step.losesConsistency.toNat) :
    later.Tallies window metrics' (sent ++ results) := by
  cases turn with
  | waits => exact tallies.of_eq commits_eq redoCount_eq (by rw [List.append_nil])
  | closes waiting opened => cases tallies.settled.symm.trans opened
  | ends marks => exact tallies.of_eq commits_eq redoCount_eq (dataOf_append_of_marker sent marks)
  | @checks tuple _ committed left _ _ _ _ checks =>
      have alone (rows : window.kind = .rows) : committed.length + left.length ≤ 1 := by
        rw [← List.length_append, ← checks.windows_eq]
        exact tallies.length_windows_le rows tuple
      have sent_eq : (dataOf (sent ++ results)).length =
          aggregation.consistent + committed.length := by
        rw [dataOf_append, dataOf_of_data checks.isEndOfStream_eq_false, List.length_append,
          tallies.sent_eq, checks.results.length_eq]
      have buffers (rows : window.kind = .rows) : ∃ buffer, later.synopsis = .rows buffer := by
        obtain ⟨buffer, synopsis_eq⟩ := tallies.buffers rows
        rw [checks.synopsis_eq, synopsis_eq]
        exact ⟨_, rfl⟩
      have counted (lost : Nat)
          (evaluated_eq : later.evaluated = aggregation.evaluated + (committed.length + lost))
          (consistent_eq : later.consistent = aggregation.consistent + committed.length)
          (lost_eq : step.losesConsistency.toNat = lost)
          (committed_le : step.commitsWindows.toNat ≤ committed.length)
          (committed_eq : window.kind = .rows → step.commitsWindows.toNat = committed.length) :
          later.Tallies window metrics' (sent ++ results) := by
        have ⟨settled, _, old_redo, old_emitted, _, old_le, old_eq⟩ := tallies
        have emitted_eq := checks.emitted_eq
        refine ⟨checks.pending_eq.trans settled, buffers, by omega, by omega, by omega, by omega,
          fun rows => ?_⟩
        rw [commits_eq, old_eq rows, committed_eq rows, consistent_eq]
      cases checks.reports with
      | nothing evaluated_eq consistent_eq =>
          exact counted 0 evaluated_eq consistent_eq rfl (Nat.le_refl 0) fun _ => rfl
      | commits earlier last evaluated_eq consistent_eq =>
          have one_le : 1 ≤ (earlier ++ [last]).length := by simp
          exact counted 0 evaluated_eq consistent_eq rfl one_le fun rows =>
            Nat.le_antisymm one_le (Nat.le_trans (Nat.le_add_right _ _) (alone rows))
      | mixed _ behind inconsistent evaluated_eq consistent_eq =>
          refine counted 1 evaluated_eq consistent_eq rfl ?_ fun rows => ?_
          · cases committed with
            | nil => exact Nat.le_refl 0
            | cons first others => exact (Bool.toNat_le _).trans (Nat.le_add_left 1 _)
          · have none_committed : committed = [] := by
              have := alone rows
              rw [List.length_cons] at this
              exact List.eq_nil_of_length_eq_zero (by omega)
            simp [none_committed, Step.commitsWindows]

end Aggregation.Tallies

/-! ## Histories -/

/-- What holds throughout a run under optimistic control. -/
structure OptimisticHistory (deployment : Deployment) (commit : OperatorHeader) (window : Window)
    (log : List Firing) (execution : Execution) : Prop where
  /-- No operator has an open commit. -/
  settled : ∀ operator ∈ deployment.tree.postOrder,
    execution.world.hasPendingCommit operator.id = false
  /-- Unless an evaluation failed, the counters agree. -/
  tallies : (∀ firing ∈ log, deployment.schedule.succeeds firing = true) →
    ∃ aggregation, execution.world.memory? commit.id = some (.aggregate aggregation) ∧
      aggregation.Tallies window execution.metrics (Firing.sentBy commit.id log)

namespace OptimisticHistory

variable {deployment : Deployment} {header : OperatorHeader} {window : Window} {index : Nat}
  {input : QueryTree} {log : List Firing} {execution : Execution}

theorem role_eq (mode : deployment.config.mode = .optimistic) (id : Nat) :
    deployment.schedule.role id =
      .of .optimistic (decide (deployment.schedule.commit? = some id)) := by
  rw [Schedule.role, deployment.mode_eq, mode]

/-- An evaluation opens no commit. -/
theorem settled_evaluate (mode : deployment.config.mode = .optimistic)
    (history : OptimisticHistory deployment header window log execution) {operator : QueryTree}
    (member : operator ∈ deployment.tree.postOrder) :
    ∀ other ∈ deployment.tree.postOrder,
      (execution.world.evaluate (deployment.schedule.role operator.id) operator).1.hasPendingCommit
        other.id = false := by
  intro other other_mem
  by_cases same : other.id = operator.id
  · have reports := World.reports_evaluate (history.settled operator member)
      (deployment.schedule.role operator.id)
    rw [same, reports.pending_eq]
    simp only [Aggregation.opensCommit]
    split
    · rw [role_eq mode]
      exact CommitRole.of_optimistic_defersClose _
    · rfl
  · rw [World.hasPendingCommit_of_memory?_eq (World.memory?_evaluate_of_ne same _)]
    exact history.settled other other_mem

/-- The other operators neither commit windows nor find mixed versions. -/
theorem quiet_evaluate (mode : deployment.config.mode = .optimistic)
    (history : OptimisticHistory deployment header window log execution) {operator : QueryTree}
    (member : operator ∈ deployment.tree.postOrder)
    (other : deployment.schedule.commit? ≠ some operator.id) {step : Step}
    (reported : (execution.world.evaluate (deployment.schedule.role operator.id) operator).2 =
      .ok step) : step.isSignal = false := by
  have allowed := (World.reports_evaluate (history.settled operator member)
    (deployment.schedule.role operator.id)).allowed step reported
  rw [role_eq mode, decide_eq_false other] at allowed
  cases step with
  | lostConsistency committed? => cases allowed
  | commit mark => cases allowed
  | pendingAbort waiting => exact allowed.elim
  | _ => rfl

/-- What the scheduler does in response opens no commit. -/
theorem settled_react (schedule : Schedule) {after : Execution} {id : Nat}
    (settled : after.world.hasPendingCommit id = false) (step : Step) :
    (schedule.react after step).world.hasPendingCommit id = false := by
  refine schedule.react_preserves (·.hasPendingCommit id = false) ?_ ?_ ?_ step settled
  · intro world change _ closed
    exact (World.hasPendingCommit_of_memory?_eq (World.memory?_modifyOutputs _ _ _ _)).trans closed
  · intro world closed
    exact Bool.eq_false_iff.mpr fun opened =>
      Bool.eq_false_iff.mp closed (World.hasPendingCommit_of_restart opened)
  · exact fun world closed => closed

/-- Evaluating the operator that commits and reacting to it keeps the counters in agreement. -/
theorem tallies_commit (commit : deployment.HasCommit header window index input)
    (mode : deployment.config.mode = .optimistic) {aggregation : Aggregation}
    (remembered : execution.world.memory? header.id = some (.aggregate aggregation))
    (tallies : aggregation.Tallies window execution.metrics (Firing.sentBy header.id log))
    {after : World} {step : Step}
    (evaluated : execution.world.evaluate (deployment.schedule.role header.id)
      (.mean header window index input) = (after, .ok step)) :
    ∃ aggregation,
      (deployment.schedule.react (({ execution with world := after }).countStep step)
          step).world.memory? header.id = some (.aggregate aggregation) ∧
        aggregation.Tallies window
          (deployment.schedule.react (({ execution with world := after }).countStep step)
            step).metrics
          (Firing.sentBy header.id (log ++
            [deployment.schedule.fire (.mean header window index input) execution.world])) := by
  have commit_role : deployment.schedule.role header.id = .of .optimistic true := by
    rw [role_eq mode, decide_eq_true commit.commit?_eq]
  obtain ⟨later, sent, later_remembered, rfl, turn⟩ := World.exists_turn window (.mean index)
    commit_role remembered (deployment.input_id_ne commit.mem_postOrder input List.mem_cons_self)
  have after_eq : (execution.world.evaluate (deployment.schedule.role header.id)
      (.single header (.aggregate window (.mean index)) input)).1 = after :=
    congrArg Prod.fst evaluated
  have step_eq : (execution.world.evaluate (deployment.schedule.role header.id)
      (.single header (.aggregate window (.mean index)) input)).2 = .ok step :=
    congrArg Prod.snd evaluated
  rw [step_eq] at turn
  rw [after_eq] at later_remembered
  rw [Schedule.react_of_optimistic (deployment.mode_eq.trans mode)]
  have counted := (tallies.turn turn
    (deployment.schedule.reactOptimistically_commits
      (({ execution with world := after }).countStep step) step)
    (deployment.schedule.reactOptimistically_redoCount
      (({ execution with world := after }).countStep step) step)).of_eq rfl rfl
    (congrArg dataOf (Firing.sentBy_append_self log
      (deployment.schedule.fire (.mean header window index input) execution.world)))
  rcases deployment.schedule.memory?_reactOptimistically
    (({ execution with world := after }).countStep step) step header.id with kept | restarted
  · exact ⟨later, kept.trans later_remembered, counted⟩
  · exact ⟨later.reset, restarted.trans (congrArg (Option.map Memory.reset) later_remembered),
      counted.reset⟩

/-- An evaluation and the reaction to it keep the counters in agreement. -/
theorem tallies_succeeds (commit : deployment.HasCommit header window index input)
    (mode : deployment.config.mode = .optimistic)
    (history : OptimisticHistory deployment header window log execution) {operator : QueryTree}
    (member : operator ∈ deployment.tree.postOrder) {after : World} {step : Step}
    (evaluated : execution.world.evaluate (deployment.schedule.role operator.id) operator =
      (after, .ok step))
    (succeeded : ∀ firing ∈ log, deployment.schedule.succeeds firing = true) :
    ∃ aggregation,
      (deployment.schedule.react (({ execution with world := after }).countStep step)
          step).world.memory? header.id = some (.aggregate aggregation) ∧
        aggregation.Tallies window
          (deployment.schedule.react (({ execution with world := after }).countStep step)
            step).metrics
          (Firing.sentBy header.id
            (log ++ [deployment.schedule.fire operator execution.world])) := by
  obtain ⟨aggregation, remembered, tallies⟩ := history.tallies succeeded
  by_cases same : operator = .mean header window index input
  · subst same
    exact tallies_commit commit mode remembered tallies evaluated
  · have different : operator.id ≠ header.id := fun id_eq =>
      same (deployment.eq_of_id_eq member commit.mem_postOrder id_eq)
    have quiet := history.quiet_evaluate mode member
      (fun is_commit => different (Option.some.inj (is_commit.symm.trans commit.commit?_eq)))
      (congrArg Prod.snd evaluated)
    rw [Schedule.react_eq_self_of_isSignal_eq_false _ _ _ quiet,
      Firing.sentBy_append_of_ne _ different]
    refine ⟨aggregation, ?_, tallies.of_eq rfl rfl rfl⟩
    have kept : (execution.world.evaluate (deployment.schedule.role operator.id)
        operator).1.memory? header.id = execution.world.memory? header.id :=
      World.memory?_evaluate_of_ne (Ne.symm different) _
    rw [evaluated] at kept
    exact kept.trans remembered

theorem maintains (commit : deployment.HasCommit header window index input)
    (mode : deployment.config.mode = .optimistic) (allowed : Action → Prop) :
    deployment.schedule.Maintains allowed (OptimisticHistory deployment header window) := by
  refine ⟨fun log execution history => ⟨history.settled, history.tallies⟩,
    fun log execution operator after error member history evaluated => ?_,
    fun log execution operator after step member history evaluated => ?_,
    fun log execution action _ external history => ?_⟩
  · have in_tree := deployment.order_eq ▸ member
    have settled := history.settled_evaluate mode in_tree
    rw [evaluated] at settled
    refine ⟨settled, fun succeeded => ?_⟩
    have failed := succeeded (deployment.schedule.fire operator execution.world) (by simp)
    simp only [Schedule.succeeds, Schedule.fire, evaluated] at failed
    cases failed
  · have in_tree := deployment.order_eq ▸ member
    have settled := history.settled_evaluate mode in_tree
    rw [evaluated] at settled
    refine ⟨fun other other_mem => settled_react _ (settled other other_mem) step,
      fun succeeded => ?_⟩
    exact history.tallies_succeeds commit mode in_tree evaluated
      fun firing earlier => succeeded firing (List.mem_append_left _ earlier)
  · refine ⟨fun operator member => ?_, fun succeeded => ?_⟩
    · rw [Schedule.hasPendingCommit_perform _ _ external]
      exact history.settled operator member
    · obtain ⟨aggregation, remembered, tallies⟩ := history.tallies succeeded
      obtain ⟨kept, metrics_eq⟩ :=
        deployment.schedule.perform_external execution external remembered
      exact ⟨aggregation, kept, metrics_eq ▸ tallies⟩

theorem start (commit : deployment.HasCommit header window index input) :
    OptimisticHistory deployment header window [] deployment.start where
  settled _ member := deployment.hasPendingCommit_start member
  tallies _ := by
    refine ⟨{ synopsis := .ofWindow window },
      World.memory?_of_getElem? (deployment.getElem?_start commit.mem_postOrder), rfl,
      fun rows => ?_, rfl, rfl, rfl, Nat.le_refl 0, fun _ => rfl⟩
    rw [Synopsis.ofWindow, rows]
    exact ⟨_, rfl⟩

end OptimisticHistory

/-! ## Runs -/

/-- Under optimistic control, as long as no evaluation fails: the scheduler has repeated as often as
the commit operator has found a window with mixed versions, each consistent window has a result, and
there are at most as many commits as results; of windows of rows there are as many. -/
theorem optimistic_counters_agree (deployment : Deployment)
    (mode : deployment.config.mode = .optimistic) {commit : QueryTree}
    (found : deployment.tree.commitOperator? = some commit) {actions : List Action}
    (succeeded : ∀ firing ∈ deployment.trace actions, deployment.schedule.succeeds firing = true) :
    ∃ aggregation,
      (deployment.run actions).world.memory? commit.id = some (.aggregate aggregation) ∧
        (deployment.run actions).metrics.redoCount =
          aggregation.evaluated - aggregation.consistent ∧
        aggregation.consistent ≤ aggregation.evaluated ∧
        aggregation.emitted = aggregation.consistent ∧
        (dataOf (deployment.sentBy commit.id actions)).length = aggregation.consistent ∧
        (deployment.run actions).metrics.commits ≤ aggregation.consistent ∧
        (commit.window?.map Window.kind = some .rows →
          (deployment.run actions).metrics.commits = aggregation.consistent) := by
  obtain ⟨header, window, index, input, rfl, has_commit⟩ :=
    deployment.hasCommit_of_commitOperator? found
  have any_action : ∀ action ∈ actions, True := fun _ _ => trivial
  have history := (OptimisticHistory.maintains has_commit mode fun _ => True).run any_action
    (OptimisticHistory.start has_commit)
  obtain ⟨aggregation, remembered, tallies⟩ := history.tallies succeeded
  have redoCount_eq := tallies.redoCount_eq
  refine ⟨aggregation, remembered, ?_, ?_, tallies.emitted_eq, tallies.sent_eq, tallies.commits_le,
    fun rows => tallies.commits_eq (Option.some.inj rows)⟩
  · exact (Nat.sub_eq_of_eq_add redoCount_eq.symm).symm
  · exact redoCount_eq ▸ Nat.le_add_left _ _

set_option maxRecDepth 10000 in
/-- A window with mixed versions is repeated before it is committed. -/
theorem pricedOptimistic_counters_agree :
    (pricedOptimistic.config.mode = .optimistic ∧
      pricedOptimistic.tree.commitOperator? = some pricedOptimistic.tree ∧
      (∀ firing ∈ pricedOptimistic.trace repricedActions,
        pricedOptimistic.schedule.succeeds firing = true) ∧
      (pricedOptimistic.run repricedActions).metrics.redoCount = 1 ∧
      (pricedOptimistic.run repricedActions).metrics.commits = 1) ∧
      ∃ aggregation,
        (pricedOptimistic.run repricedActions).world.memory? pricedOptimistic.tree.id =
            some (.aggregate aggregation) ∧
          (pricedOptimistic.run repricedActions).metrics.redoCount =
            aggregation.evaluated - aggregation.consistent ∧
          aggregation.consistent ≤ aggregation.evaluated ∧
          aggregation.emitted = aggregation.consistent ∧
          (dataOf (pricedOptimistic.sentBy pricedOptimistic.tree.id repricedActions)).length =
            aggregation.consistent ∧
          (pricedOptimistic.run repricedActions).metrics.commits ≤ aggregation.consistent ∧
          (pricedOptimistic.tree.window?.map Window.kind = some .rows →
            (pricedOptimistic.run repricedActions).metrics.commits = aggregation.consistent) :=
  have succeeded : ∀ firing ∈ pricedOptimistic.trace repricedActions,
      pricedOptimistic.schedule.succeeds firing = true := by
    decide +kernel
  ⟨⟨rfl, rfl, succeeded, by decide +kernel, by decide +kernel⟩,
    optimistic_counters_agree pricedOptimistic rfl rfl succeeded⟩

end StreamQuery
