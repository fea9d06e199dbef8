import StreamQuery.Proofs.Engine.Turns
import StreamQuery.Proofs.Engine.Updates

/-!
# Joint commits

Under pessimistic control a transaction is made up of a number of commits. The scheduler counts them
while the commit operator knows whether the last one is still open, and both agree: a transaction
ends when a tuple waits behind the last of its commits, and at no other time.
-/

namespace StreamQuery

/-! ## Commits of a run -/

namespace Schedule

/-- The commits since a transaction ended, where some have been counted before. -/
def commitsSince (schedule : Schedule) : Nat → Execution → List Action → Nat
  | count, _, [] => count
  | count, execution, action :: actions =>
    let after := schedule.perform execution action
    let next :=
      if execution.metrics.afterCommits < after.metrics.afterCommits then
        0
      else
        count + (schedule.actionFirings execution action).countP schedule.commits
    schedule.commitsSince next after actions

end Schedule

namespace Deployment

/-- The commits that were reported since a transaction ended, or since the start. -/
def commitsSinceEnd (deployment : Deployment) (actions : List Action) : Nat :=
  deployment.schedule.commitsSince 0 deployment.start actions

/-- The commit operator is next, its last commit is open, and a tuple waits for it. -/
def ClosesCommit (deployment : Deployment) (execution : Execution) : Prop :=
  ∃ commit, deployment.tree.commitOperator? = some commit ∧
    deployment.schedule.order[execution.cursor]? = some commit ∧
    execution.world.hasPendingCommit commit.id = true ∧
    ∃ input ∈ commit.inputs, (execution.world.output input.id).queue ≠ []

end Deployment

/-! ## Open commits of a tree -/

namespace World

/-- Only the commit operator has an open commit. -/
def OpensOnly (commit? : Option Nat) (tree : QueryTree) (world : World) : Prop :=
  ∀ operator ∈ tree.postOrder, world.hasPendingCommit operator.id = true →
    commit? = some operator.id

variable {commit? : Option Nat} {tree operator : QueryTree} {world after : World}

theorem OpensOnly.mono (opens : world.OpensOnly commit? tree)
    (weaker : ∀ id, after.hasPendingCommit id = true → world.hasPendingCommit id = true) :
    after.OpensOnly commit? tree :=
  fun operator member opened => opens operator member (weaker operator.id opened)

/-- The end of a transaction opens no commit. -/
theorem OpensOnly.endTransaction {schedule : Schedule} {execution : Execution}
    (opens : execution.world.OpensOnly commit? tree) (waiting : Int) :
    (schedule.endTransaction execution waiting).world.OpensOnly commit? tree := by
  have ended : (execution.world.endTransactions schedule.mode schedule.order).OpensOnly commit?
      tree := opens.mono fun _ opened => opened
  rw [Schedule.endTransaction]
  simp only
  split
  · refine ended.mono fun id opened => ?_
    have unrestarted := hasPendingCommit_of_restart opened
    rw [Schedule.modifyInlets] at unrestarted
    rwa [hasPendingCommit_of_memory?_eq (memory?_modifyOutputs _ _ _ _)] at unrestarted
  · exact ended

end World

/-! ## Counts -/

/-- The count of the scheduler agrees with the open commits. -/
structure JointCounts (deployment : Deployment) (execution : Execution) : Prop where
  /-- Every transaction that has ended was made up of the same number of commits. -/
  commits_eq : execution.metrics.commits =
    deployment.config.jointCount * execution.metrics.afterCommits + execution.openCommits
  /-- A transaction has no more commits than that. -/
  openCommits_le : execution.openCommits ≤ deployment.config.jointCount
  /-- The last commit of a transaction is open. -/
  full : execution.openCommits = deployment.config.jointCount →
    ∃ id, deployment.schedule.commit? = some id ∧ execution.world.hasPendingCommit id = true
  /-- Other operators have no open commits. -/
  opens : execution.world.OpensOnly deployment.schedule.commit? deployment.tree
  /-- Each turn has an evaluation. -/
  batchCount_pos : 0 < execution.batchCount

/-- What a turn with a number of commits makes of the counts. -/
structure TurnCounts (deployment : Deployment) (before after : Execution) (reported : Nat) :
    Prop where
  /-- The counts agree afterwards. -/
  counts : JointCounts deployment after
  /-- Commits are counted. -/
  commits_eq : after.metrics.commits = before.metrics.commits + reported
  /-- The transaction ends when its last commit is closed. -/
  ends : deployment.ClosesCommit before → before.openCommits = deployment.config.jointCount →
    after.metrics.afterCommits = before.metrics.afterCommits + 1 ∧ after.openCommits = 0
  /-- Otherwise it goes on. -/
  goes_on : ¬(deployment.ClosesCommit before ∧
      before.openCommits = deployment.config.jointCount) →
    after.metrics.afterCommits = before.metrics.afterCommits ∧
      after.openCommits = before.openCommits + reported

/-! ## The part of an operator -/

namespace Deployment

variable {deployment : Deployment} {id : Nat}

theorem checksConsistency_of_isPessimistic
    (pessimistic : deployment.config.mode.isPessimistic = true) (id : Nat) :
    (deployment.schedule.role id).checksConsistency = false := by
  simp only [Schedule.role, CommitRole.of, mode_eq]
  cases mode : deployment.config.mode <;> simp_all [Mode.isPessimistic]

theorem commit?_of_signalsCommit (signals : (deployment.schedule.role id).signalsCommit = true) :
    deployment.schedule.commit? = some id := by
  simp only [Schedule.role, CommitRole.of, Bool.and_eq_true, decide_eq_true_eq] at signals
  exact signals.1

theorem defersClose_of_commit? (pessimistic : deployment.config.mode.isPessimistic = true)
    (commits : deployment.schedule.commit? = some id) :
    (deployment.schedule.role id).defersClose = true := by
  simp [Schedule.role, CommitRole.of, commits, pessimistic]

end Deployment

/-! ## Turns -/

namespace JointCounts

variable {deployment : Deployment} {execution after : Execution} {operator : QueryTree}

/-- A turn that neither reports nor closes a commit changes no count. -/
theorem quiet (counts : JointCounts deployment execution)
    (continues : (deployment.schedule.advanceCursor execution).Continues after)
    (opens : after.world.OpensOnly deployment.schedule.commit? deployment.tree)
    (full : execution.openCommits = deployment.config.jointCount →
      ∃ id, deployment.schedule.commit? = some id ∧ after.world.hasPendingCommit id = true)
    (unfinished : ¬(deployment.ClosesCommit execution ∧
      execution.openCommits = deployment.config.jointCount)) :
    TurnCounts deployment execution after 0 := by
  refine ⟨⟨?_, ?_, fun same => full (continues.openCommits_eq.symm.trans same), opens, ?_⟩,
    continues.commits_eq, fun closes same => absurd ⟨closes, same⟩ unfinished,
    fun _ => ⟨continues.afterCommits_eq, continues.openCommits_eq⟩⟩
  · rw [continues.commits_eq, continues.afterCommits_eq, continues.openCommits_eq]
    exact counts.commits_eq
  · exact continues.openCommits_eq ▸ counts.openCommits_le
  · exact continues.batchCount_eq ▸ counts.batchCount_pos

/-- The turn that closes the last commit of a transaction ends it. -/
theorem ends_transaction (counts : JointCounts deployment execution)
    (closes : deployment.ClosesCommit execution)
    (same : execution.openCommits = deployment.config.jointCount)
    (continues : (deployment.schedule.advanceCursor execution).Continues after)
    (opens : after.world.OpensOnly deployment.schedule.commit? deployment.tree) (waiting : Int) :
    TurnCounts deployment execution (deployment.schedule.endTransaction after waiting) 0 := by
  have metrics_eq := deployment.schedule.endTransaction_metrics after waiting
  refine ⟨⟨?_, ?_, fun ended => ?_, opens.endTransaction waiting, ?_⟩, ?_, fun _ _ => ⟨?_, ?_⟩,
    fun unfinished => absurd ⟨closes, same⟩ unfinished⟩
  · rw [metrics_eq, Schedule.endTransaction_openCommits, Nat.add_zero]
    simp only [continues.commits_eq, continues.afterCommits_eq]
    exact counts.commits_eq.trans (same ▸ (Nat.mul_succ _ _).symm)
  · rw [Schedule.endTransaction_openCommits]
    exact Nat.zero_le _
  · rw [Schedule.endTransaction_openCommits] at ended
    exact absurd ended deployment.config.jointCount_pos.ne
  · rw [Schedule.endTransaction_batchCount, continues.batchCount_eq]
    exact counts.batchCount_pos
  · rw [metrics_eq]
    exact continues.commits_eq
  · rw [metrics_eq]
    exact congrArg (· + 1) continues.afterCommits_eq
  · exact Schedule.endTransaction_openCommits _ _ _

/-- An operator with an open commit is the commit operator, and has one input. -/
theorem commit_of_open (counts : JointCounts deployment execution)
    (member : operator ∈ deployment.tree.postOrder)
    (is_open : execution.world.hasPendingCommit operator.id = true) :
    ∃ header window index input, operator = .mean header window index input ∧
      deployment.HasCommit header window index input :=
  deployment.hasCommit_of_commit? member (counts.opens operator member is_open)

/-- The turn of an operator whose commit is open: while nothing waits, it stays open. Otherwise it
is closed, and the transaction ends if this was its last commit. -/
theorem turn_of_open (counts : JointCounts deployment execution)
    (pessimistic : deployment.config.mode.isPessimistic = true)
    (next : deployment.schedule.order[execution.cursor]? = some operator)
    (is_open : execution.world.hasPendingCommit operator.id = true) :
    TurnCounts deployment execution (deployment.schedule.wakeUp execution).1
      ((deployment.schedule.firings execution).countP deployment.schedule.commits) := by
  have member : operator ∈ deployment.tree.postOrder :=
    deployment.order_eq ▸ List.mem_of_getElem? next
  obtain ⟨header, window, index, input, rfl, commit⟩ := counts.commit_of_open member is_open
  obtain ⟨count, count_eq⟩ : ∃ count, execution.batchCount = count + 1 :=
    Nat.exists_eq_succ_of_ne_zero counts.batchCount_pos.ne'
  cases waits : (execution.world.output input.id).queue with
  | nil =>
      have empty : ((deployment.schedule.advanceCursor execution).world.output input.id).queue =
          [] := waits
      have batch := Schedule.evaluateBatch_of_nil empty deployment.schedule header
        (.aggregate window (.mean index)) count
      rw [← count_eq] at batch
      rw [Schedule.wakeUp_of_ok next batch, Schedule.countP_firings_of_ok next batch,
        Schedule.react_eq_self_of_isSignal_eq_false _ _ _ rfl]
      have nothing_waits : ¬deployment.ClosesCommit execution := by
        rintro ⟨other, _, other_next, _, source, is_input, some_waits⟩
        obtain rfl := Option.some.inj (next.symm.trans other_next)
        obtain rfl : source = input := by simpa [QueryTree.inputs] using is_input
        exact some_waits waits
      exact counts.quiet (.countStep _ _ _) counts.opens counts.full
        fun ends => nothing_waits ends.1
  | cons tuple queue =>
      have ready : ((deployment.schedule.advanceCursor execution).world.output input.id).queue =
          tuple :: queue := waits
      have batch := Schedule.evaluateBatch_of_open ready is_open deployment.schedule
        (.aggregate window (.mean index)) count
      rw [← count_eq] at batch
      rw [Schedule.wakeUp_of_ok next batch, Schedule.countP_firings_of_ok next batch,
        Schedule.react_of_isPessimistic (deployment.mode_eq ▸ pessimistic),
        Schedule.reactPessimistically]
      have closes : deployment.ClosesCommit execution :=
        ⟨_, commit.found, next, is_open, input, by simp [QueryTree.inputs], by simp [waits]⟩
      have opens : (execution.world.modifyCell header.id Cell.closeCommit).OpensOnly
          deployment.schedule.commit? deployment.tree :=
        counts.opens.mono fun _ => World.hasPendingCommit_of_closeCommit
      split
      · rename_i last
        have same : execution.openCommits = deployment.config.jointCount :=
          Nat.le_antisymm counts.openCommits_le (deployment.jointCount_eq ▸ last)
        exact counts.ends_transaction closes same (.countStep _ _ _) opens _
      · rename_i unfinished
        have less : execution.openCommits ≠ deployment.config.jointCount := fun same =>
          unfinished (deployment.jointCount_eq ▸ same.ge)
        exact counts.quiet (.countStep _ _ _) opens (fun same => absurd same less)
          fun ends => less ends.2

/-- The turn that reports a commit. -/
theorem commit (counts : JointCounts deployment execution)
    (continues : (deployment.schedule.advanceCursor execution).Continues after)
    (opens : after.world.OpensOnly deployment.schedule.commit? deployment.tree)
    (commits : deployment.schedule.commit? = some operator.id)
    (opened : after.world.hasPendingCommit operator.id = true)
    (less : execution.openCommits ≠ deployment.config.jointCount) (mark : Int) :
    TurnCounts deployment execution
      (deployment.schedule.reactPessimistically after (.commit mark)) 1 := by
  refine ⟨⟨?_, ?_, fun _ => ⟨operator.id, commits, opened⟩, opens, ?_⟩, ?_,
    fun _ same => absurd same less, fun _ => ⟨continues.afterCommits_eq, ?_⟩⟩
  · change after.metrics.commits + 1 = _ * after.metrics.afterCommits + (after.openCommits + 1)
    rw [continues.commits_eq, continues.afterCommits_eq, continues.openCommits_eq]
    exact congrArg (· + 1) counts.commits_eq
  · change after.openCommits + 1 ≤ _
    rw [continues.openCommits_eq]
    exact Nat.lt_of_le_of_ne counts.openCommits_le less
  · exact continues.batchCount_eq ▸ counts.batchCount_pos
  · exact congrArg (· + 1) continues.commits_eq
  · exact congrArg (· + 1) continues.openCommits_eq

/-- The commit of a full transaction belongs to another operator than one without an open commit. -/
theorem full_of_settled (counts : JointCounts deployment execution)
    (settled : execution.world.hasPendingCommit operator.id = false)
    (same : execution.openCommits = deployment.config.jointCount) :
    ∃ id, deployment.schedule.commit? = some id ∧ id ≠ operator.id ∧
      execution.world.hasPendingCommit id = true := by
  obtain ⟨id, commits, opened⟩ := counts.full same
  refine ⟨id, commits, ?_, opened⟩
  rintro rfl
  cases settled.symm.trans opened

/-- The turn of an operator without an open commit: a commit that it reports is the next one of the
transaction, and stays open. -/
theorem turn_of_settled (counts : JointCounts deployment execution)
    (pessimistic : deployment.config.mode.isPessimistic = true)
    (next : deployment.schedule.order[execution.cursor]? = some operator)
    (settled : execution.world.hasPendingCommit operator.id = false) :
    TurnCounts deployment execution (deployment.schedule.wakeUp execution).1
      ((deployment.schedule.firings execution).countP deployment.schedule.commits) := by
  have unfinished : ¬(deployment.ClosesCommit execution ∧
      execution.openCommits = deployment.config.jointCount) := by
    rintro ⟨⟨other, _, other_next, is_open, _⟩, _⟩
    obtain rfl := Option.some.inj (next.symm.trans other_next)
    cases settled.symm.trans is_open
  have settled_next :
      (deployment.schedule.advanceCursor execution).world.hasPendingCommit operator.id = false :=
    settled
  have reports := Schedule.evaluateBatch_reports settled_next deployment.schedule
    execution.batchCount
  have opened_before := Schedule.pending_or_reported settled_next deployment.schedule
    execution.batchCount
  have continues := deployment.schedule.evaluateBatch_continues operator execution.batchCount
    (deployment.schedule.advanceCursor execution)
  have others {other : Nat} (different : other ≠ operator.id) :=
    deployment.schedule.hasPendingCommit_evaluateBatch_of_ne different execution.batchCount
      (deployment.schedule.advanceCursor execution)
  rcases batch : deployment.schedule.evaluateBatch operator execution.batchCount
    (deployment.schedule.advanceCursor execution) with ⟨after, outcome⟩
  rw [batch] at reports continues
  simp only [batch] at others opened_before
  have opens : after.world.OpensOnly deployment.schedule.commit? deployment.tree := by
    intro other member opened
    rcases opened_before _ opened with before | ⟨same, mark, outcome_eq⟩
    · exact counts.opens other member before
    · exact same ▸ Deployment.commit?_of_signalsCommit (reports.allowed _ outcome_eq)
  have full (same : execution.openCommits = deployment.config.jointCount) :
      ∃ id, deployment.schedule.commit? = some id ∧ id ≠ operator.id ∧
        after.world.hasPendingCommit id = true := by
    obtain ⟨id, commits, different, opened⟩ := counts.full_of_settled settled same
    exact ⟨id, commits, different, (others different).trans opened⟩
  have stays : TurnCounts deployment execution after 0 :=
    counts.quiet continues opens
      (fun same => (full same).imp fun _ ⟨commits, _, opened⟩ => ⟨commits, opened⟩) unfinished
  cases outcome with
  | error error =>
      rwa [Schedule.wakeUp_of_error next batch, Schedule.countP_firings_of_error next batch]
  | ok step =>
      rw [Schedule.wakeUp_of_ok next batch, Schedule.countP_firings_of_ok next batch]
      by_cases quiet : step.isSignal = false
      · rwa [Schedule.react_eq_self_of_isSignal_eq_false _ _ _ quiet, Step.isCommit_of_quiet quiet]
      · have allowed := reports.allowed step rfl
        cases step with
        | commit mark =>
            have commits := Deployment.commit?_of_signalsCommit allowed
            have less : execution.openCommits ≠ deployment.config.jointCount := by
              intro same
              obtain ⟨id, other_commits, different, _⟩ := full same
              exact different (Option.some.inj (other_commits.symm.trans commits))
            have opened := reports.opens mark rfl
              (Deployment.defersClose_of_commit? pessimistic commits)
            rw [Schedule.react_of_isPessimistic (deployment.mode_eq ▸ pessimistic)]
            exact counts.commit continues opens commits opened less mark
        | lostConsistency committed? =>
            cases (Deployment.checksConsistency_of_isPessimistic pessimistic _).symm.trans allowed
        | pendingAbort waiting => exact allowed.elim
        | _ => exact absurd rfl quiet

/-- A turn of the scheduler keeps the counts in agreement. -/
theorem turn (counts : JointCounts deployment execution)
    (pessimistic : deployment.config.mode.isPessimistic = true) :
    TurnCounts deployment execution (deployment.schedule.wakeUp execution).1
      ((deployment.schedule.firings execution).countP deployment.schedule.commits) := by
  cases next : deployment.schedule.order[execution.cursor]? with
  | none =>
      have not_closes : ¬deployment.ClosesCommit execution := by
        rintro ⟨commit, _, commit_next, _⟩
        cases next.symm.trans commit_next
      rw [Schedule.wakeUp, Schedule.firings, next]
      exact ⟨counts, rfl, fun closes => absurd closes not_closes, fun _ => ⟨rfl, rfl⟩⟩
  | some operator =>
      cases is_open : execution.world.hasPendingCommit operator.id with
      | true => exact counts.turn_of_open pessimistic next is_open
      | false => exact counts.turn_of_settled pessimistic next is_open

/-! ## Runs -/

/-- Actions from outside change no count. -/
theorem perform_external (counts : JointCounts deployment execution) {action : Action}
    (external : ¬action.IsTurn) :
    JointCounts deployment (deployment.schedule.perform execution action) ∧
      (deployment.schedule.perform execution action).metrics = execution.metrics ∧
      (deployment.schedule.perform execution action).openCommits = execution.openCommits := by
  have pending_eq (id : Nat) := deployment.schedule.hasPendingCommit_perform execution external id
  have metrics_eq := deployment.schedule.metrics_perform execution external
  have open_eq :
      (deployment.schedule.perform execution action).openCommits = execution.openCommits := by
    cases action <;> first | rfl | exact absurd trivial external
  refine ⟨⟨?_, ?_, fun same => ?_, ?_, ?_⟩, metrics_eq, open_eq⟩
  · rw [metrics_eq, open_eq]
    exact counts.commits_eq
  · exact open_eq ▸ counts.openCommits_le
  · obtain ⟨id, commits, opened⟩ := counts.full (open_eq.symm.trans same)
    exact ⟨id, commits, (pending_eq id).trans opened⟩
  · exact counts.opens.mono fun id opened => (pending_eq id).symm.trans opened
  · cases action with
    | setBatchCount count => exact Nat.le_max_right _ _
    | wakeUp => exact absurd trivial external
    | _ => exact counts.batchCount_pos

/-- Every action keeps the counts in agreement. -/
theorem perform (counts : JointCounts deployment execution)
    (pessimistic : deployment.config.mode.isPessimistic = true) (action : Action) :
    JointCounts deployment (deployment.schedule.perform execution action) ∧
      (deployment.schedule.perform execution action).metrics.commits =
        execution.metrics.commits +
          (deployment.schedule.actionFirings execution action).countP deployment.schedule.commits ∧
      (deployment.schedule.perform execution action).openCommits =
        if execution.metrics.afterCommits <
            (deployment.schedule.perform execution action).metrics.afterCommits then
          0
        else
          execution.openCommits + (deployment.schedule.actionFirings execution action).countP
            deployment.schedule.commits := by
  by_cases is_turn : action.IsTurn
  · cases action with
    | wakeUp =>
        have turn := counts.turn pessimistic
        refine ⟨turn.counts, turn.commits_eq, ?_⟩
        by_cases ends : deployment.ClosesCommit execution ∧
            execution.openCommits = deployment.config.jointCount
        · obtain ⟨afterCommits_eq, open_eq⟩ := turn.ends ends.1 ends.2
          exact open_eq.trans (if_pos (afterCommits_eq ▸ Nat.lt_succ_self _)).symm
        · obtain ⟨afterCommits_eq, open_eq⟩ := turn.goes_on ends
          exact open_eq.trans (if_neg (afterCommits_eq ▸ Nat.lt_irrefl _)).symm
    | _ => cases is_turn
  · obtain ⟨next_counts, metrics_eq, open_eq⟩ := counts.perform_external is_turn
    rw [Schedule.actionFirings_of_external _ _ is_turn, metrics_eq, open_eq,
      if_neg (Nat.lt_irrefl _)]
    exact ⟨next_counts, rfl, rfl⟩

theorem start (deployment : Deployment) : JointCounts deployment deployment.start := by
  refine ⟨rfl, Nat.zero_le _, fun same => absurd same deployment.config.jointCount_pos.ne,
    fun operator member opened => ?_, deployment.config.batchCount_pos⟩
  cases (deployment.hasPendingCommit_start member).symm.trans opened

/-- A run keeps the counts in agreement, and the scheduler counts the commits that are reported. -/
theorem performAll (counts : JointCounts deployment execution)
    (pessimistic : deployment.config.mode.isPessimistic = true) (actions : List Action) :
    JointCounts deployment (deployment.schedule.performAll execution actions) ∧
      (deployment.schedule.performAll execution actions).metrics.commits =
        execution.metrics.commits +
          (deployment.schedule.trace execution actions).countP deployment.schedule.commits ∧
      (deployment.schedule.performAll execution actions).openCommits =
        deployment.schedule.commitsSince execution.openCommits execution actions := by
  induction actions generalizing execution with
  | nil => exact ⟨counts, rfl, rfl⟩
  | cons action actions induction =>
      obtain ⟨next_counts, commits_eq, openCommits_eq⟩ := counts.perform pessimistic action
      obtain ⟨final_counts, final_commits, final_open⟩ := induction next_counts
      refine ⟨final_counts, ?_, ?_⟩
      · rw [Schedule.trace, List.countP_append, ← Nat.add_assoc, ← commits_eq]
        exact final_commits
      · rw [Schedule.commitsSince, ← openCommits_eq]
        exact final_open

end JointCounts

/-- What the scheduler has counted after some actions, and what the next wake-up makes of it. -/
structure Deployment.CountsJointly (deployment : Deployment) (actions : List Action) : Prop where
  /-- All commits that were reported are counted. -/
  reported : (deployment.run actions).metrics.commits =
    (deployment.trace actions).countP deployment.schedule.commits
  /-- The open commits are those since a transaction ended. -/
  since : (deployment.run actions).openCommits = deployment.commitsSinceEnd actions
  /-- Each transaction that has ended was made up of the same number of commits. -/
  joint : (deployment.run actions).metrics.commits =
    deployment.config.jointCount * (deployment.run actions).metrics.afterCommits +
      (deployment.run actions).openCommits
  /-- No transaction has more commits than that. -/
  bounded : (deployment.run actions).openCommits ≤ deployment.config.jointCount
  /-- If a transaction has all its commits, then the commit operator holds the last one open. -/
  pending : (deployment.run actions).openCommits = deployment.config.jointCount →
    ∃ commit, deployment.tree.commitOperator? = some commit ∧
      (deployment.run actions).world.hasPendingCommit commit.id = true
  /-- A wake-up that closes the last commit of a transaction ends the transaction. -/
  ends : deployment.ClosesCommit (deployment.run actions) →
    deployment.commitsSinceEnd actions = deployment.config.jointCount →
    (deployment.run (actions ++ [.wakeUp])).metrics.afterCommits =
      (deployment.run actions).metrics.afterCommits + 1
  /-- No other wake-up ends a transaction. -/
  goes_on : ¬(deployment.ClosesCommit (deployment.run actions) ∧
      deployment.commitsSinceEnd actions = deployment.config.jointCount) →
    (deployment.run (actions ++ [.wakeUp])).metrics.afterCommits =
      (deployment.run actions).metrics.afterCommits

/-- Under pessimistic control the counts of the scheduler agree with the open commits throughout
every run, whether or not evaluations fail. -/
theorem joint_commits_counted (deployment : Deployment)
    (pessimistic : deployment.config.mode.isPessimistic = true) (actions : List Action) :
    deployment.CountsJointly actions := by
  obtain ⟨counts, commits_eq, open_eq⟩ :=
    (JointCounts.start deployment).performAll pessimistic actions
  have turn := counts.turn pessimistic
  refine ⟨commits_eq.trans (Nat.zero_add _), open_eq, counts.commits_eq, counts.openCommits_le,
    fun same => ?_, fun closes last => ?_, fun unfinished => ?_⟩
  · obtain ⟨id, commits, opened⟩ := counts.full same
    rw [deployment.commit?_eq] at commits
    obtain ⟨commit, found, rfl⟩ := Option.map_eq_some_iff.mp commits
    exact ⟨commit, found, opened⟩
  · rw [Deployment.run_append_singleton]
    exact (turn.ends closes (open_eq.trans last)).1
  · rw [Deployment.run_append_singleton]
    exact (turn.goes_on fun ⟨closes, same⟩ => unfinished ⟨closes, open_eq.symm.trans same⟩).1

/-- The price of a sale stays locked until two means are committed. -/
def pricedJointly : Deployment :=
  (Deployment.ofDeclarations? (pricedDeclarations (.rows 1 1)) "mean"
    (.ofChoices (some .twoPhaseLocking) (some 2) none none)).get (by decide)

/-- Three sales arrive, and the third waits behind the second commit. -/
def jointActions : List Action :=
  [.load 0 (.ofInts priceSchema [1, 10] 0), .arrive 0 (.ofInts goodsSchema [1] 1),
      .arrive 0 (.ofInts goodsSchema [1] 2), .arrive 0 (.ofInts goodsSchema [1] 3)] ++
    List.replicate 11 .wakeUp

set_option maxRecDepth 10000 in
theorem pricedJointly_commits_counted :
    (pricedJointly.config.mode.isPessimistic = true ∧ pricedJointly.config.jointCount = 2 ∧
      (pricedJointly.run jointActions).metrics.afterCommits = 0 ∧
      pricedJointly.commitsSinceEnd jointActions = 2 ∧
      (pricedJointly.run (jointActions ++ [.wakeUp])).metrics.afterCommits = 1) ∧
      pricedJointly.CountsJointly jointActions :=
  ⟨⟨rfl, rfl, by decide +kernel, by decide +kernel, by decide +kernel⟩,
    joint_commits_counted pricedJointly rfl jointActions⟩

end StreamQuery
