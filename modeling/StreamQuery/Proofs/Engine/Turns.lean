import StreamQuery.Proofs.Engine.Deployment
import StreamQuery.Proofs.Engine.Pending

/-!
# Turns of the scheduler

A turn evaluates one operator a number of times. As long as the scheduler does not react, this
changes nothing but the world and the count of evaluations; the last evaluation decides what the
scheduler reacts to.
-/

namespace StreamQuery

namespace Execution

/-- Operators were evaluated, and the scheduler has not reacted. -/
structure Continues (before after : Execution) : Prop where
  cursor_eq : after.cursor = before.cursor
  batchCount_eq : after.batchCount = before.batchCount
  openCommits_eq : after.openCommits = before.openCommits
  commits_eq : after.metrics.commits = before.metrics.commits
  afterCommits_eq : after.metrics.afterCommits = before.metrics.afterCommits
  redoCount_eq : after.metrics.redoCount = before.metrics.redoCount

namespace Continues

theorem refl (execution : Execution) : execution.Continues execution :=
  ⟨rfl, rfl, rfl, rfl, rfl, rfl⟩

theorem trans {first second third : Execution} (earlier : first.Continues second)
    (later : second.Continues third) : first.Continues third where
  cursor_eq := later.cursor_eq.trans earlier.cursor_eq
  batchCount_eq := later.batchCount_eq.trans earlier.batchCount_eq
  openCommits_eq := later.openCommits_eq.trans earlier.openCommits_eq
  commits_eq := later.commits_eq.trans earlier.commits_eq
  afterCommits_eq := later.afterCommits_eq.trans earlier.afterCommits_eq
  redoCount_eq := later.redoCount_eq.trans earlier.redoCount_eq

theorem evaluation (execution : Execution) (world : World) :
    execution.Continues { execution with world } :=
  ⟨rfl, rfl, rfl, rfl, rfl, rfl⟩

theorem countStep (execution : Execution) (world : World) (step : Step) :
    execution.Continues (({ execution with world }).countStep step) :=
  ⟨rfl, rfl, rfl, rfl, rfl, rfl⟩

end Continues

end Execution

namespace Step

/-- Whether a step reports a commit. -/
def isCommit : Step → Bool
  | commit _ => true
  | _ => false

theorem isCommit_of_quiet {step : Step} (quiet : step.isSignal = false) :
    step.isCommit = false := by
  cases step with
  | commit mark => cases quiet
  | _ => rfl

end Step

namespace Schedule

/-- Whether an operator reported a commit when it was evaluated. -/
def commits (schedule : Schedule) (firing : Firing) : Bool :=
  match (firing.before.evaluate (schedule.role firing.operator.id) firing.operator).2 with
  | .ok step => step.isCommit
  | .error _ => false

variable {schedule : Schedule} {operator : QueryTree}

theorem commits_fire_of_ok {world after : World} {step : Step}
    (evaluated : world.evaluate (schedule.role operator.id) operator = (after, .ok step)) :
    schedule.commits (schedule.fire operator world) = step.isCommit := by
  rw [commits, fire, evaluated]

theorem commits_fire_of_error {world after : World} {error : OperatorError}
    (evaluated : world.evaluate (schedule.role operator.id) operator = (after, .error error)) :
    schedule.commits (schedule.fire operator world) = false := by
  rw [commits, fire, evaluated]

/-! ## Batches -/

theorem evaluateBatch_continues (schedule : Schedule) (operator : QueryTree) (count : Nat)
    (execution : Execution) :
    execution.Continues (schedule.evaluateBatch operator count execution).1 := by
  induction count generalizing execution with
  | zero => exact .refl execution
  | succ count induction =>
      rw [evaluateBatch]
      rcases evaluated : execution.world.evaluate (schedule.role operator.id) operator with
        ⟨after, error | step⟩
      · exact .evaluation execution after
      · have counted := Execution.Continues.countStep execution after step
        simp only
        split
        · exact counted
        · exact counted.trans (induction _)

/-- What a batch leaves at other operators. -/
theorem memory?_evaluateBatch_of_ne {other : Nat} (different : other ≠ operator.id) (count : Nat)
    (execution : Execution) :
    (schedule.evaluateBatch operator count execution).1.world.memory? other =
      execution.world.memory? other := by
  induction count generalizing execution with
  | zero => rfl
  | succ count induction =>
      have memory_eq := execution.world.memory?_evaluate_of_ne different
        (schedule.role operator.id)
      rw [evaluateBatch]
      rcases evaluated : execution.world.evaluate (schedule.role operator.id) operator with
        ⟨after, error | step⟩
      · rwa [evaluated] at memory_eq
      · rw [evaluated] at memory_eq
        simp only
        split
        · exact memory_eq
        · exact (induction _).trans memory_eq

theorem hasPendingCommit_evaluateBatch_of_ne {other : Nat} (different : other ≠ operator.id)
    (count : Nat) (execution : Execution) :
    (schedule.evaluateBatch operator count execution).1.world.hasPendingCommit other =
      execution.world.hasPendingCommit other :=
  World.hasPendingCommit_of_memory?_eq (memory?_evaluateBatch_of_ne different count execution)

/-- A batch reports a commit if and only if one of its evaluations does. -/
theorem countP_batchFirings (schedule : Schedule) (operator : QueryTree) (count : Nat)
    (execution : Execution) :
    (schedule.batchFirings operator count execution).countP schedule.commits =
      match (schedule.evaluateBatch operator count execution).2 with
      | .ok step => if step.isCommit then 1 else 0
      | .error _ => 0 := by
  induction count generalizing execution with
  | zero => rfl
  | succ count induction =>
      rw [batchFirings, evaluateBatch]
      rcases evaluated : execution.world.evaluate (schedule.role operator.id) operator with
        ⟨after, error | step⟩
      · simp [commits_fire_of_error evaluated]
      · by_cases last : step = .idle ∨ step.isSignal = true
        · simp [last, commits_fire_of_ok evaluated]
        · have quiet : step.isSignal = false := by simpa using fun signals => last (.inr signals)
          simpa [last, commits_fire_of_ok evaluated, Step.isCommit_of_quiet quiet] using
            induction (({ execution with world := after }).countStep step)

/-- What an operator without an open commit reports after a batch. -/
structure BatchReports (schedule : Schedule) (operator : QueryTree)
    (outcome : Execution × Except ControlError Step) : Prop where
  /-- A commit that is open was reported. -/
  opened : outcome.1.world.hasPendingCommit operator.id = true →
    ∃ mark, outcome.2 = .ok (.commit mark)
  /-- A commit that is reported is open if its end is deferred. -/
  opens : ∀ mark, outcome.2 = .ok (.commit mark) →
    (schedule.role operator.id).defersClose = true →
    outcome.1.world.hasPendingCommit operator.id = true
  /-- The step is one that the operator may report. -/
  allowed : ∀ step, outcome.2 = .ok step → step.IsAllowed (schedule.role operator.id)

theorem evaluateBatch_reports {execution : Execution}
    (settled : execution.world.hasPendingCommit operator.id = false) (schedule : Schedule)
    (count : Nat) :
    schedule.BatchReports operator (schedule.evaluateBatch operator count execution) := by
  induction count generalizing execution with
  | zero =>
      refine ⟨fun opened => ?_, ?_, ?_⟩
      · cases settled.symm.trans opened
      · rintro mark ⟨⟩
      · rintro step ⟨⟩
        trivial
  | succ count induction =>
      have reports := World.reports_evaluate settled (schedule.role operator.id)
      rw [evaluateBatch]
      rcases evaluated : execution.world.evaluate (schedule.role operator.id) operator with
        ⟨after, error | step⟩
      · rw [evaluated] at reports
        refine ⟨fun opened => ?_, ?_, ?_⟩
        · cases reports.pending_eq.symm.trans opened
        · rintro mark ⟨⟩
        · rintro step ⟨⟩
      · rw [evaluated] at reports
        by_cases last : step = .idle ∨ step.isSignal = true
        · simp only [Bool.or_eq_true, decide_eq_true_eq, last, if_true]
          refine ⟨fun opened => ?_, ?_, ?_⟩
          · have opens := reports.pending_eq.symm.trans opened
            cases step with
            | commit mark => exact ⟨mark, rfl⟩
            | _ => cases opens
          · rintro mark ⟨⟩ defers
            exact reports.pending_eq.trans defers
          · rintro other ⟨⟩
            exact reports.allowed step rfl
        · have quiet : step.isSignal = false := by simpa using fun signals => last (.inr signals)
          simp only [Bool.or_eq_true, decide_eq_true_eq, last, if_false]
          exact induction (reports.pending_eq.trans (Aggregation.opensCommit_of_quiet quiet _))

/-- A commit that is open after a batch was open before, or the operator has reported it. -/
theorem pending_or_reported {execution : Execution}
    (settled : execution.world.hasPendingCommit operator.id = false) (schedule : Schedule)
    (count id : Nat)
    (opened : (schedule.evaluateBatch operator count execution).1.world.hasPendingCommit id =
      true) :
    execution.world.hasPendingCommit id = true ∨
      id = operator.id ∧
        ∃ mark, (schedule.evaluateBatch operator count execution).2 = .ok (.commit mark) := by
  by_cases same : id = operator.id
  · exact .inr ⟨same, (evaluateBatch_reports settled schedule count).opened (same ▸ opened)⟩
  · exact .inl ((hasPendingCommit_evaluateBatch_of_ne same count execution).symm.trans opened)

/-! ## Open commits -/

section

variable {header : OperatorHeader} {logic : SingleLogic} {input : QueryTree}
  {execution : Execution}

/-- An open commit stays open while nothing waits. -/
theorem evaluateBatch_of_nil (empty : (execution.world.output input.id).queue = [])
    (schedule : Schedule) (header : OperatorHeader) (logic : SingleLogic) (count : Nat) :
    schedule.evaluateBatch (.single header logic input) (count + 1) execution =
      (execution.countStep .idle, .ok .idle) := by
  rw [evaluateBatch, World.evaluate, World.evaluateSingle_of_nil empty]
  rfl

/-- An open commit is closed when a tuple waits, and that ends the batch. -/
theorem evaluateBatch_of_open {tuple : Tuple} {queue : List Tuple}
    (waits : (execution.world.output input.id).queue = tuple :: queue)
    (is_open : execution.world.hasPendingCommit header.id = true) (schedule : Schedule)
    (logic : SingleLogic) (count : Nat) :
    schedule.evaluateBatch (.single header logic input) (count + 1) execution =
      (({ execution with
          world := execution.world.modifyCell header.id Cell.closeCommit }).countStep
        (.pendingAbort tuple.lowWater), .ok (.pendingAbort tuple.lowWater)) := by
  rw [evaluateBatch, World.evaluate, World.evaluateSingle_of_open waits is_open]
  rfl

end

/-- Actions from outside open no commit, and close none. -/
theorem hasPendingCommit_perform (schedule : Schedule) (execution : Execution) {action : Action}
    (external : ¬action.IsTurn) (id : Nat) :
    (schedule.perform execution action).world.hasPendingCommit id =
      execution.world.hasPendingCommit id := by
  cases action with
  | arrive source tuple => exact World.hasPendingCommit_modifyArrivals
  | collect operator =>
      exact World.hasPendingCommit_of_memory?_eq (World.memory?_modifyOutput _ _ _ _)
  | wakeUp => exact absurd trivial external
  | _ => rfl

/-! ## Turns -/

section

variable {execution after : Execution}

theorem wakeUp_of_ok {step : Step} (next : schedule.order[execution.cursor]? = some operator)
    (batch : schedule.evaluateBatch operator execution.batchCount
      (schedule.advanceCursor execution) = (after, .ok step)) :
    schedule.wakeUp execution = (schedule.react after step, .ok ()) := by
  rw [wakeUp, next]
  simp only [batch]

theorem wakeUp_of_error {error : ControlError}
    (next : schedule.order[execution.cursor]? = some operator)
    (batch : schedule.evaluateBatch operator execution.batchCount
      (schedule.advanceCursor execution) = (after, .error error)) :
    schedule.wakeUp execution = (after, .error error) := by
  rw [wakeUp, next]
  simp only [batch]

theorem countP_firings_of_ok {step : Step}
    (next : schedule.order[execution.cursor]? = some operator)
    (batch : schedule.evaluateBatch operator execution.batchCount
      (schedule.advanceCursor execution) = (after, .ok step)) :
    (schedule.firings execution).countP schedule.commits = if step.isCommit then 1 else 0 := by
  rw [firings, next]
  simp only [countP_batchFirings, batch]

theorem countP_firings_of_error {error : ControlError}
    (next : schedule.order[execution.cursor]? = some operator)
    (batch : schedule.evaluateBatch operator execution.batchCount
      (schedule.advanceCursor execution) = (after, .error error)) :
    (schedule.firings execution).countP schedule.commits = 0 := by
  rw [firings, next]
  simp only [countP_batchFirings, batch]

end

/-! ## Responses -/

/-- The end of a transaction frees locks or renews copies, and evaluates nothing. -/
theorem endTransaction_catalog (schedule : Schedule) (execution : Execution) (waiting : Int) :
    (schedule.endTransaction execution waiting).world.catalog =
      (execution.world.endTransactions schedule.mode schedule.order).catalog := by
  rw [endTransaction]
  simp only
  split
  · rw [restartArea, World.restart_catalog, modifyInlets, World.modifyOutputs_catalog]
  · rfl

theorem endTransaction_metrics (schedule : Schedule) (execution : Execution) (waiting : Int) :
    (schedule.endTransaction execution waiting).metrics =
      { execution.metrics with afterCommits := execution.metrics.afterCommits + 1 } := by
  rw [endTransaction]
  simp only
  split <;> rfl

theorem endTransaction_batchCount (schedule : Schedule) (execution : Execution) (waiting : Int) :
    (schedule.endTransaction execution waiting).batchCount = execution.batchCount := by
  rw [endTransaction]
  simp only
  split <;> rfl

end Schedule

/-- At the start no commit is open. -/
theorem Deployment.hasPendingCommit_start (deployment : Deployment) {operator : QueryTree}
    (member : operator ∈ deployment.tree.postOrder) :
    deployment.start.world.hasPendingCommit operator.id = false := by
  rw [World.hasPendingCommit_of_getElem? (deployment.getElem?_start member),
    Cell.hasPendingCommit]
  rcases operator with _ | ⟨_, _ | _ | _ | _, _⟩ | _ <;> rfl

end StreamQuery
