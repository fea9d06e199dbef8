import StreamQuery.Proofs.Operator.Counters
import StreamQuery.Proofs.SnapshotIsolation

/-!
# Two-phase locking

Under two-phase locking every window of the commit operator is consistent, provided that its own
window covers reads of relations. Where it does not, nothing is evaluated again when locks are
freed, and a window may mix versions.
-/

namespace StreamQuery

/-- A window whose tuples have observed one version of each relation is consistent. -/
theorem Contents.isConsistent_of_observed {contents : Contents}
    {versions : RelationId → Option Nat}
    (observed : ∀ tuple ∈ contents.tuples, tuple.Observed versions) :
    contents.isConsistent = true := by
  refine isConsistent_of_versions versions fun entry member => ?_
  obtain ⟨tuple, tuple_mem, stamped⟩ := List.mem_flatMap.mp member
  exact (observed tuple tuple_mem).stamps entry stamped

/-- An aggregation all of whose windows so far were consistent. -/
def Cell.IsBalanced (cell : Cell) : Prop :=
  ∃ aggregation, cell.memory = .aggregate aggregation ∧
    aggregation.evaluated = aggregation.consistent

namespace World

variable {world : World} {id : Nat}

theorem CellAt.modifyOutputs (balanced : world.CellAt id Cell.IsBalanced) (ids : List Nat)
    (change : Channel → Channel) : (world.modifyOutputs ids change).CellAt id Cell.IsBalanced := by
  induction ids generalizing world with
  | nil => exact balanced
  | cons first ids induction => exact induction (balanced.modifyCell first fun _ holds => holds)

theorem CellAt.restart (balanced : world.CellAt id Cell.IsBalanced) (spared? : Option Nat)
    (ids : List Nat) : (world.restart spared? ids).CellAt id Cell.IsBalanced := by
  induction ids generalizing world with
  | nil => exact balanced
  | cons first ids induction =>
      refine induction (balanced.modifyCell first fun cell cell_balanced => ?_)
      obtain ⟨aggregation, memory_eq, counters_eq⟩ := cell_balanced
      exact ⟨aggregation.reset, by simp [Cell.restart, memory_eq, Memory.reset], counters_eq⟩

/-- An evaluation keeps the counters of an aggregation balanced if all windows that it completes are
consistent. -/
theorem CellAt.evaluate {role : CommitRole} {header : OperatorHeader} {operator : QueryTree}
    (balanced : world.CellAt header.id Cell.IsBalanced)
    (others : operator.id ≠ header.id → ∀ cell,
      (world.evaluate role operator).1.cells[header.id]? = some cell →
        ∃ old, world.cells[header.id]? = some old ∧ cell.memory = old.memory)
    (self : operator.id = header.id →
      (∃ window function input, operator = .single header (.aggregate window function) input ∧
        input.id ≠ header.id) ∧
        ∀ contents ∈ world.completedWindows operator, contents.isConsistent = true) :
    (world.evaluate role operator).1.CellAt header.id Cell.IsBalanced := by
  obtain ⟨old, old_found, aggregation, memory_eq, counters_eq⟩ := balanced
  have in_range : header.id < (world.evaluate role operator).1.cells.length := by
    rw [length_evaluate]
    exact (List.getElem?_eq_some_iff.mp old_found).1
  have found := List.getElem?_eq_getElem in_range
  refine ⟨_, found, ?_⟩
  by_cases same : operator.id = header.id
  · obtain ⟨⟨window, function, input, rfl, different⟩, consistent⟩ := self same
    obtain ⟨earlier, earlier_found, counts⟩ := (evaluate_counts different).self _ found
    obtain rfl := Option.some.inj (old_found.symm.trans earlier_found)
    obtain ⟨later, looked, later_eq, looked_first, evaluated_eq, consistent_eq⟩ :=
      counts aggregation memory_eq
    have all_consistent : looked.countP Contents.isConsistent = looked.length :=
      List.countP_eq_length.mpr fun contents member =>
        consistent contents (looked_first.subset member)
    exact ⟨later, later_eq, by omega⟩
  · obtain ⟨earlier, earlier_found, unchanged⟩ := others same _ found
    obtain rfl := Option.some.inj (old_found.symm.trans earlier_found)
    exact ⟨aggregation, unchanged.trans memory_eq, counters_eq⟩

/-- No response of the scheduler touches the counters. -/
theorem CellAt.react (schedule : Schedule) {execution : Execution} (step : Step)
    (balanced : execution.world.CellAt id Cell.IsBalanced) :
    (schedule.react execution step).world.CellAt id Cell.IsBalanced :=
  Schedule.react_preserves (·.CellAt id Cell.IsBalanced)
    (fun _ change _ holds => holds.modifyOutputs _ change)
    (fun _ holds => holds.restart _ _) (fun _ holds => holds) step balanced

theorem CellAt.perform (schedule : Schedule) {execution : Execution} {action : Action}
    (external : ¬action.IsTurn) (balanced : execution.world.CellAt id Cell.IsBalanced) :
    (schedule.perform execution action).world.CellAt id Cell.IsBalanced := by
  cases action with
  | arrive source tuple =>
      refine balanced.modifyCell source fun cell cell_balanced => ?_
      obtain ⟨aggregation, memory_eq, counters_eq⟩ := cell_balanced
      exact ⟨aggregation, by simp [memory_eq], counters_eq⟩
  | load place row => exact balanced
  | update place change => exact balanced
  | collect operator => exact balanced.modifyCell operator fun cell cell_balanced => cell_balanced
  | setBatchCount count => exact balanced
  | wakeUp => exact absurd trivial external

end World

/-! ## Runs -/

section

variable {deployment : Deployment} {header : OperatorHeader} {window : Window} {index : Nat}
  {input : QueryTree}

theorem Deployment.start_balanced (commit : deployment.HasCommit header window index input) :
    deployment.start.world.CellAt header.id Cell.IsBalanced :=
  ⟨_, deployment.getElem?_start commit.mem_postOrder, _, rfl, rfl⟩

/-- As long as all windows are consistent, the counters of the commit operator stay balanced. -/
theorem Deployment.HasCommit.evaluate_balanced
    (commit : deployment.HasCommit header window index input) {flow : FlowInvariant} {world : World}
    (carries : world.Carries flow deployment.tree) {operator : QueryTree}
    (member : operator ∈ deployment.tree.postOrder) (role : CommitRole)
    (consistent : operator = .mean header window index input →
      ∀ contents ∈ world.completedWindows operator, contents.isConsistent = true)
    (balanced : world.CellAt header.id Cell.IsBalanced) :
    (world.evaluate role operator).1.CellAt header.id Cell.IsBalanced := by
  refine balanced.evaluate (fun different cell found => ?_) fun same => ?_
  · have steps := World.evaluate_steps role carries member (deployment.input_id_ne member)
    obtain ⟨old, old_found, shrinks⟩ := steps.others header.id cell (Ne.symm different) found
    exact ⟨old, old_found, shrinks.memory⟩
  · obtain rfl := deployment.eq_of_id_eq member commit.mem_postOrder same
    exact ⟨⟨window, .mean index, input, rfl,
      deployment.input_id_ne member input (by simp [QueryTree.inputs])⟩, consistent rfl⟩

theorem IsolatedHistory.evaluate_balanced (commit : deployment.HasCommit header window index input)
    (pessimistic : deployment.config.mode.isPessimistic = true) {log : List Firing} {world : World}
    {operator : QueryTree} (member : operator ∈ deployment.tree.postOrder)
    (history : IsolatedHistory deployment (.mean header window index input) log world)
    (balanced : world.CellAt header.id Cell.IsBalanced) (role : CommitRole) :
    (world.evaluate role operator).1.CellAt header.id Cell.IsBalanced := by
  refine commit.evaluate_balanced history.isolated.carries member role (fun same => ?_) balanced
  subst same
  intro contents completed
  exact Contents.isConsistent_of_observed
    ((history.isolated.observed_of_fire commit pessimistic).1 contents completed)

theorem IsolatedHistory.preserves_balanced
    (commit : deployment.HasCommit header window index input)
    (pessimistic : deployment.config.mode.isPessimistic = true)
    (replays : deployment.schedule.replaysArea = true) :
    deployment.schedule.Preserves Action.IsFresh fun log world =>
      IsolatedHistory deployment (.mean header window index input) log world ∧
        world.CellAt header.id Cell.IsBalanced := by
  have histories := IsolatedHistory.preserves commit pessimistic replays
  refine ⟨fun log world operator after error member holds evaluated => ?_,
    fun log world operator after step execution member holds evaluated world_eq => ?_,
    fun log execution action fresh external holds => ?_⟩
  · have balanced := holds.1.evaluate_balanced commit pessimistic (deployment.order_eq ▸ member)
      holds.2 (deployment.schedule.role operator.id)
    rw [evaluated] at balanced
    exact ⟨histories.fails log world operator after error member holds.1 evaluated, balanced⟩
  · have balanced := holds.1.evaluate_balanced commit pessimistic (deployment.order_eq ▸ member)
      holds.2 (deployment.schedule.role operator.id)
    rw [evaluated, ← world_eq] at balanced
    exact ⟨histories.succeeds log world operator after step execution member holds.1 evaluated
      world_eq, balanced.react deployment.schedule step⟩
  · exact ⟨histories.acts log execution action fresh external holds.1,
      holds.2.perform deployment.schedule external⟩

end

/-- Under two-phase locking, if the window of the commit operator itself covers reads of relations,
every window that the commit operator evaluates is consistent, and in every state it has counted as
many consistent windows as windows. -/
theorem locked_windows_consistent (deployment : Deployment)
    (mode : deployment.config.mode = .twoPhaseLocking) {commit : QueryTree}
    (found : deployment.tree.commitOperator? = some commit)
    (covers : deployment.tree.commitOverlapsRead = true) {actions : List Action}
    (fresh : ∀ action ∈ actions, action.IsFresh) :
    (∀ firing ∈ deployment.trace actions, firing.operator = commit →
      firing.IsUniform ∧ ∀ contents ∈ firing.windows, contents.isConsistent = true) ∧
      ∃ aggregation,
        ((deployment.run actions).world.cells[commit.id]?.bind fun cell =>
          cell.memory.aggregation?) = some aggregation ∧
        aggregation.evaluated = aggregation.consistent := by
  obtain ⟨header, window, index, input, rfl, has_commit⟩ :=
    deployment.hasCommit_of_commitOperator? found
  have pessimistic : deployment.config.mode.isPessimistic = true := by
    rw [mode]
    rfl
  have controlled : deployment.config.mode ≠ .uncontrolled := by
    rw [mode]
    exact Mode.noConfusion
  have replays : deployment.schedule.replaysArea = true := by
    simp [Schedule.replaysArea, covers]
  obtain ⟨history, cell, cell_found, aggregation, memory_eq, counters_eq⟩ :=
    (IsolatedHistory.preserves_balanced has_commit pessimistic replays).run fresh
      ⟨IsolatedHistory.start has_commit controlled, deployment.start_balanced has_commit⟩
  refine ⟨fun firing member same => ?_, aggregation, ?_, counters_eq⟩
  · have uniform := history.uniform firing member same
    obtain ⟨versions, windows_observed, _⟩ := id uniform
    exact ⟨uniform, fun contents completed =>
      Contents.isConsistent_of_observed (windows_observed contents completed)⟩
  · exact Option.bind_eq_some_iff.mpr ⟨cell, cell_found, by rw [memory_eq]; rfl⟩

/-- The price of a sale stays locked until the mean over it is committed. -/
def pricedLocked : Deployment :=
  (Deployment.ofDeclarations? (pricedDeclarations (.rows 1 1)) "mean"
    (.ofMode .twoPhaseLocking)).get (by decide)

/-- The prices of a pair of sales stay locked until the mean over them is committed. -/
def pairsLocked : Deployment :=
  (Deployment.ofDeclarations? (pricedDeclarations (.rows 2 2)) "mean"
    (.ofMode .twoPhaseLocking)).get (by decide)

set_option maxRecDepth 10000 in
/-- The first change of the price is refused, because the price is locked until the first pair of
sales is evaluated. The second one takes effect after that, and before the second pair. -/
theorem pairsLocked_windows_consistent :
    (pairsLocked.config.mode = .twoPhaseLocking ∧
      pairsLocked.tree.commitOperator? = some pairsLocked.tree ∧
      pairsLocked.tree.commitOverlapsRead = true ∧
      (∀ action ∈ repricedPairs, action.IsFresh) ∧
      (pairsLocked.run repricedPairs).world.catalog.relations.map Relation.version = [1] ∧
      (pairsLocked.sentBy pairsLocked.tree.id repricedPairs).map (·.stamps.entries) =
        [[(0, 0)], [(0, 1)]]) ∧
      (∀ firing ∈ pairsLocked.trace repricedPairs, firing.operator = pairsLocked.tree →
        firing.IsUniform ∧ ∀ contents ∈ firing.windows, contents.isConsistent = true) ∧
      ∃ aggregation,
        ((pairsLocked.run repricedPairs).world.cells[pairsLocked.tree.id]?.bind fun cell =>
          cell.memory.aggregation?) = some aggregation ∧
        aggregation.evaluated = aggregation.consistent :=
  ⟨⟨rfl, rfl, rfl, by decide, by decide +kernel, by decide +kernel⟩,
    locked_windows_consistent pairsLocked rfl rfl rfl (by decide)⟩

/-! ## Windows that do not cover reads -/

/-- Limits that sales are joined with. -/
def limitSchema : Schema :=
  ⟨[{ name := "limit", type := .int }]⟩

/-- Priced sales pass through the window of a join before their mean is computed. -/
def limitedDeclarations : List Declaration :=
  [.relation { name := "prices", schema := priceSchema },
    .operator "sales" (.stream goodsSchema),
    .operator "limits" (.stream limitSchema),
    .operator "priced" (.combine "sales" "prices" (.attributes "goods" .equal "id")),
    .operator "limited" (.join "priced" (.rows 1 1) "limits" (.rows 1 1) .always),
    .operator "mean" (.mean "limited" "price" (.rows 2 2))]

/-- The window of the mean covers no read, but the window of the join does. -/
def limitedLocked : Deployment :=
  (Deployment.ofDeclarations? limitedDeclarations "mean" (.ofMode .twoPhaseLocking)).get (by decide)

/-- The price changes while a priced sale waits for the next window of the mean. -/
def limitedActions : List Action :=
  [.load 0 (.ofInts priceSchema [1, 10] 0), .arrive 1 (.ofInts limitSchema [7] 0),
      .arrive 0 (.ofInts goodsSchema [1] 1), .arrive 0 (.ofInts goodsSchema [1] 2),
      .arrive 0 (.ofInts goodsSchema [1] 3)] ++
    List.replicate 20 .wakeUp ++
    [.update 0 fun _ => [.ofInts priceSchema [1, 20] 0],
      .arrive 0 (.ofInts goodsSchema [1] 4)] ++
    List.replicate 20 .wakeUp

/-- Locks are freed while a result of a read waits, so that a window mixes two versions. -/
theorem locked_window_inconsistent :
    ∃ (deployment : Deployment) (commit : QueryTree) (actions : List Action)
      (aggregation : Aggregation),
      deployment.config.mode = .twoPhaseLocking ∧
        deployment.tree.commitOperator? = some commit ∧
        (∀ action ∈ actions, action.IsFresh) ∧
        ((deployment.run actions).world.cells[commit.id]?.bind fun cell =>
          cell.memory.aggregation?) = some aggregation ∧
        aggregation.evaluated ≠ aggregation.consistent := by
  let outcome := ((limitedLocked.run limitedActions).world.cells[limitedLocked.tree.id]?.bind
    fun cell => cell.memory.aggregation?)
  have counters : outcome.map (fun aggregation => (aggregation.evaluated, aggregation.consistent)) =
      some (2, 1) := by
    decide +kernel
  obtain ⟨aggregation, found, counters_eq⟩ := Option.map_eq_some_iff.mp counters
  obtain ⟨evaluated_eq, consistent_eq⟩ := Prod.mk.inj counters_eq
  refine ⟨limitedLocked, limitedLocked.tree, limitedActions, aggregation, rfl, rfl, by decide,
    found, ?_⟩
  rw [evaluated_eq, consistent_eq]
  decide

end StreamQuery
