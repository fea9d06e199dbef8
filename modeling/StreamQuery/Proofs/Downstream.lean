import StreamQuery.Proofs.Engine.Deployment

/-!
# Operators downstream of the commit operator

When the redo area starts over, operators that get results of the commit operator start over with it
if a windowed operator buffers them: what they remember and what waits in their outputs is lost,
although it was committed. All others stay exactly as they are.
-/

namespace StreamQuery

namespace Schedule

/-- Whether the redo area starts over in response to a step. -/
def StartsOver (schedule : Schedule) (execution : Execution) : Step → Prop
  | .lostConsistency _ => schedule.mode = .optimistic
  | .pendingAbort _ =>
    schedule.mode.isPessimistic = true ∧ schedule.jointCount ≤ execution.openCommits ∧
      schedule.replaysArea = true
  | _ => False

variable {schedule : Schedule} {id : Nat}

theorem getElem?_modifyInlets (outside : id ∉ schedule.redo.streams) (execution : Execution)
    (change : Channel → Channel) :
    (schedule.modifyInlets execution change).world.cells[id]? = execution.world.cells[id]? :=
  World.getElem?_modifyOutputs_of_not_mem _ outside change

/-- The cell of an operator when the redo area starts over. -/
def restartedCell? (schedule : Schedule) (execution : Execution) (id : Nat) : Option Cell :=
  (schedule.restartArea execution).world.cells[id]?

theorem restartedCell?_of_cell_eq {first second : Execution}
    (cell_eq : first.world.cells[id]? = second.world.cells[id]?) :
    schedule.restartedCell? first id = schedule.restartedCell? second id := by
  simp only [restartedCell?, restartArea]
  by_cases member : id ∈ schedule.redo.operators
  · rw [World.getElem?_restart_of_mem _ _ member, World.getElem?_restart_of_mem _ _ member, cell_eq]
  · rw [World.getElem?_restart_of_not_mem _ _ member, World.getElem?_restart_of_not_mem _ _ member,
      cell_eq]

theorem getElem?_redoArea (outside : id ∉ schedule.redo.streams) {execution before : Execution}
    (cell_eq : execution.world.cells[id]? = before.world.cells[id]?) :
    (schedule.redoArea execution).world.cells[id]? = schedule.restartedCell? before id :=
  (getElem?_modifyInlets outside _ _).trans (restartedCell?_of_cell_eq cell_eq)

theorem getElem?_endTransaction (outside : id ∉ schedule.redo.streams) (execution : Execution)
    (waiting : Int) :
    (schedule.endTransaction execution waiting).world.cells[id]? =
      if schedule.replaysArea then
        schedule.restartedCell? execution id
      else
        execution.world.cells[id]? := by
  rw [endTransaction]
  simp only
  split
  · exact restartedCell?_of_cell_eq (getElem?_modifyInlets outside _ _)
  · rfl

/-- An operator whose output is not delivered again changes only when the redo area starts over. -/
theorem getElem?_react (outside : id ∉ schedule.redo.streams) (execution : Execution)
    (step : Step) :
    (schedule.StartsOver execution step →
      (schedule.react execution step).world.cells[id]? = schedule.restartedCell? execution id) ∧
      (¬schedule.StartsOver execution step →
        (schedule.react execution step).world.cells[id]? = execution.world.cells[id]?) := by
  have committed (mark : Int) :=
    getElem?_modifyInlets outside execution.countCommit (·.evictBefore mark)
  rw [react]
  cases step with
  | lostConsistency committed? =>
      cases mode : schedule.mode with
      | optimistic =>
          refine ⟨fun _ => ?_, fun stays => absurd mode stays⟩
          cases committed? with
          | none => exact getElem?_redoArea outside rfl
          | some mark => exact getElem?_redoArea outside (committed mark)
      | _ => simp [StartsOver, mode, reactPessimistically]
  | pendingAbort waiting =>
      have pessimistically : (schedule.reactPessimistically execution
          (.pendingAbort waiting)).world.cells[id]? =
            if schedule.jointCount ≤ execution.openCommits ∧ schedule.replaysArea = true then
              schedule.restartedCell? execution id
            else
              execution.world.cells[id]? := by
        rw [reactPessimistically]
        by_cases complete : schedule.jointCount ≤ execution.openCommits <;>
          simp [complete, getElem?_endTransaction outside]
      cases mode : schedule.mode <;>
        simp +contextual [StartsOver, mode, Mode.isPessimistic, reactOptimistically,
          pessimistically]
  | commit mark =>
      refine ⟨False.elim, fun _ => ?_⟩
      cases schedule.mode with
      | optimistic => exact committed mark
      | _ => rfl
  | _ => exact ⟨False.elim, fun _ => by cases schedule.mode <;> rfl⟩

end Schedule

/-- Under every protocol that controls concurrency, an operator downstream of the commit operator
changes in response to a step only when the redo area starts over, and then exactly if it lies at or
below a windowed operator: it forgets what it has buffered, and the results that wait in its output
are lost. -/
theorem react_downstream (deployment : Deployment)
    (controlled : deployment.config.mode ≠ .uncontrolled) {commit operator : QueryTree}
    (found : deployment.tree.commitOperator? = some commit)
    (member : operator ∈ deployment.tree.postOrder) (downstream : commit ∈ operator.postOrder)
    (different : operator ≠ commit) (execution : Execution) (step : Step) :
    (deployment.schedule.StartsOver execution step ∧ deployment.tree.IsUnderWindow operator →
      (deployment.schedule.react execution step).world.cells[operator.id]? =
        execution.world.cells[operator.id]?.map (·.restart false)) ∧
      (¬(deployment.schedule.StartsOver execution step ∧ deployment.tree.IsUnderWindow operator) →
        (deployment.schedule.react execution step).world.cells[operator.id]? =
          execution.world.cells[operator.id]?) := by
  obtain ⟨header, window, index, input, rfl, has_commit⟩ :=
    deployment.hasCommit_of_commitOperator? found
  have reads : 0 < operator.reads :=
    has_commit.root_reads.trans_le (QueryTree.reads_le_of_mem_postOrder downstream)
  have outside : operator.id ∉ deployment.schedule.redo.streams := fun delivered =>
    reads.ne' (has_commit.reads_eq_zero_of_mem_streams controlled member delivered)
  have unspared : deployment.schedule.commit? ≠ some operator.id := by
    rw [has_commit.commit?_eq]
    intro same
    exact different
      (deployment.eq_of_id_eq member has_commit.mem_postOrder (Option.some.inj same).symm)
  have restarted : operator.id ∈ deployment.schedule.redo.operators ↔
      deployment.tree.IsUnderWindow operator := by
    rw [has_commit.redo_eq controlled]
    exact RedoArea.mem_ofTree_operators_iff deployment.ids_nodup member reads
  obtain ⟨starts_over, stays⟩ := Schedule.getElem?_react outside execution step
  constructor
  · rintro ⟨starts, under⟩
    rw [starts_over starts, Schedule.restartedCell?, Schedule.restartArea,
      World.getElem?_restart_of_mem _ _ (restarted.mpr under)]
    simp [unspared]
  · intro untouched
    by_cases starts : deployment.schedule.StartsOver execution step
    · have absent : operator.id ∉ deployment.schedule.redo.operators := fun restarts =>
        untouched ⟨starts, restarted.mp restarts⟩
      rw [starts_over starts, Schedule.restartedCell?, Schedule.restartArea,
        World.getElem?_restart_of_not_mem _ _ absent]
    · exact stays starts

/-- Means over the means of priced sales. -/
def nestedDeclarations : List Declaration :=
  [.relation { name := "prices", schema := priceSchema },
    .operator "sales" (.stream goodsSchema),
    .operator "priced" (.combine "sales" "prices" (.attributes "goods" .equal "id")),
    .operator "mean" (.mean "priced" "price" (.rows 1 1)),
    .operator "smoothed" (.mean "mean" "price" (.rows 1 1))]

/-- Commits are made where the first means are computed. -/
def nestedLocked : Deployment :=
  (Deployment.ofDeclarations? nestedDeclarations "smoothed" (.ofMode .twoPhaseLocking)).get
    (by decide)

/-- The operator that commits. -/
def nestedCommit : QueryTree :=
  nestedLocked.tree.commitOperator?.get (by decide)

/-- The mean over the first sale is committed, and the second sale waits. -/
def nestedActions : List Action :=
  [.load 0 (.ofInts priceSchema [1, 10] 0), .arrive 0 (.ofInts goodsSchema [1] 0),
      .arrive 0 (.ofInts goodsSchema [1] 1)] ++
    List.replicate 6 .wakeUp

theorem nestedCommit_mem_postOrder : nestedCommit ∈ nestedLocked.tree.postOrder :=
  QueryTree.commitOperator?_mem_postOrder (Option.some_get _).symm

theorem nestedLocked_tree_ne_commit : nestedLocked.tree ≠ nestedCommit :=
  fun same => absurd (congrArg QueryTree.id same) (by decide)

set_option maxRecDepth 10000 in
/-- When the first transaction ends, the operator downstream starts over. -/
theorem nestedLocked_react_downstream :
    (nestedLocked.config.mode ≠ .uncontrolled ∧
      nestedLocked.tree.commitOperator? = some nestedCommit ∧
      nestedLocked.schedule.StartsOver (nestedLocked.run nestedActions) (.pendingAbort 1) ∧
      nestedLocked.tree.IsUnderWindow nestedLocked.tree) ∧
      (nestedLocked.schedule.react (nestedLocked.run nestedActions) (.pendingAbort 1)).world.cells[
        nestedLocked.tree.id]? =
          (nestedLocked.run nestedActions).world.cells[nestedLocked.tree.id]?.map
            (·.restart false) := by
  have controlled : nestedLocked.config.mode ≠ .uncontrolled := by decide
  have found : nestedLocked.tree.commitOperator? = some nestedCommit := (Option.some_get _).symm
  have starts : nestedLocked.schedule.StartsOver (nestedLocked.run nestedActions)
      (.pendingAbort 1) := by
    refine ⟨rfl, ?_, rfl⟩
    decide +kernel
  have under : nestedLocked.tree.IsUnderWindow nestedLocked.tree :=
    ⟨nestedLocked.tree, QueryTree.self_mem_postOrder _, rfl, QueryTree.self_mem_postOrder _⟩
  refine ⟨⟨controlled, found, starts, under⟩, ?_⟩
  exact (react_downstream nestedLocked controlled found (QueryTree.self_mem_postOrder _)
    nestedCommit_mem_postOrder nestedLocked_tree_ne_commit _ _).1 ⟨starts, under⟩

set_option maxRecDepth 10000 in
/-- A result downstream of the commit operator is lost in a turn in which nothing but the commit
operator is evaluated. -/
theorem downstream_result_lost :
    ∃ (deployment : Deployment) (commit operator : QueryTree) (actions : List Action),
      deployment.config.mode ≠ .uncontrolled ∧
        deployment.tree.commitOperator? = some commit ∧
        operator ∈ deployment.tree.postOrder ∧ commit ∈ operator.postOrder ∧ operator ≠ commit ∧
        (deployment.schedule.firings (deployment.run actions)).map Firing.operator = [commit] ∧
        ((deployment.run actions).world.output operator.id).queue.length = 1 ∧
        ((deployment.run (actions ++ [.wakeUp])).world.output operator.id).queue = [] := by
  have found : nestedLocked.tree.commitOperator? = some nestedCommit := (Option.some_get _).symm
  refine ⟨nestedLocked, nestedCommit, nestedLocked.tree, nestedActions, by decide, found,
    QueryTree.self_mem_postOrder _, nestedCommit_mem_postOrder, nestedLocked_tree_ne_commit, ?_,
    by decide +kernel, ?_⟩
  · rfl
  · exact List.length_eq_zero_iff.mp (by decide +kernel)

end StreamQuery
