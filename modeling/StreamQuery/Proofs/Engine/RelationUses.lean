import StreamQuery.Proofs.Engine.Turns
import StreamQuery.Proofs.Relation.Uses

/-!
# Uses of relations in a run

A run uses relations in a definite order: operators read them, actions from outside change them, and
the scheduler ends their transactions. Its catalog is what these uses make of the relations at the
start.
-/

namespace StreamQuery

namespace World

/-- How an operator that is evaluated uses relations. -/
def uses (world : World) : QueryTree → List RelationUse
  | .single header (.combine reference _) input =>
    if world.hasPendingCommit header.id then
      []
    else
      match (world.output input.id).peek? with
      | some tuple => if tuple.isEndOfStream then [] else [.read reference.place]
      | none => []
  | _ => []

end World

/-- How relations were used in an evaluation. -/
def Firing.uses (firing : Firing) : List RelationUse :=
  firing.before.uses firing.operator

/-- The ends of the transactions of all relations that some operators read. -/
def transactionEnds (operators : List QueryTree) : List RelationUse :=
  operators.filterMap fun operator =>
    operator.relation?.map fun reference => .endTransaction reference.place

namespace Schedule

/-- How relations are used in a turn of the scheduler. -/
def turnUses (schedule : Schedule) (execution : Execution) : List RelationUse :=
  (schedule.firings execution).flatMap Firing.uses ++
    if execution.metrics.afterCommits < (schedule.wakeUp execution).1.metrics.afterCommits then
      transactionEnds schedule.order
    else
      []

/-- How relations are used in an action. -/
def actionUses (schedule : Schedule) (execution : Execution) : Action → List RelationUse
  | .load place row => [.load place row]
  | .update place change => [.update place change]
  | .wakeUp => schedule.turnUses execution
  | _ => []

/-- How relations are used in a sequence of actions. -/
def uses (schedule : Schedule) (execution : Execution) : List Action → List RelationUse
  | [] => []
  | action :: actions =>
    schedule.actionUses execution action ++
      schedule.uses (schedule.perform execution action) actions

end Schedule

namespace Deployment

/-- The relations at the start, with an access that has not been used. -/
def openedCatalog (deployment : Deployment) : Catalog :=
  .opened deployment.start.world.catalog.relations deployment.config.mode

/-- How relations are used during some actions. -/
def uses (deployment : Deployment) (actions : List Action) : List RelationUse :=
  deployment.schedule.uses deployment.start actions

end Deployment

/-! ## Evaluations -/

namespace World

/-- An operator that reads a relation uses it once, for each data tuple. -/
theorem evaluate_catalog_eq_useAll (world : World) (role : CommitRole) (operator : QueryTree) :
    (world.evaluate role operator).1.catalog = world.catalog.useAll (world.uses operator) := by
  by_cases reads : ∃ header reference condition input,
      operator = .single header (.combine reference condition) input
  · obtain ⟨header, reference, condition, input, rfl⟩ := reads
    simp only [evaluate, evaluateSingle, uses]
    split
    · split <;> rfl
    · rcases taken : world.take input.id with ⟨_ | tuple, rest⟩
      · obtain ⟨empty, rfl⟩ := take_eq_none taken
        rw [Channel.peek?, empty]
        rfl
      · obtain ⟨cell, queue, found, queue_eq, _⟩ := take_eq_some taken
        have rest_catalog : rest.catalog = world.catalog := by
          simpa [taken] using take_catalog world input.id
        rw [Channel.peek?, output_of_getElem? found, queue_eq]
        simp only [List.head?_cons]
        split
        · rw [act_catalog, modifyCell_catalog, rest_catalog]
          rfl
        · simp only [process, modifyCell_catalog, rest_catalog]
          split
          · rename_i missing
            simp [Catalog.useAll, Catalog.use, Catalog.read?, missing, rest_catalog]
          · rename_i relation relation_found
            rw [act_catalog]
            simp [Catalog.useAll, Catalog.use, Catalog.read?, relation_found]
  · have unused : world.uses operator = [] := by
      rw [uses.eq_def]
      split
      · exact absurd ⟨_, _, _, _, rfl⟩ reads
      · rfl
    rw [unused]
    rcases world.evaluate_catalog role operator with
      unchanged | ⟨header, reference, condition, input, _, _, operator_eq, _⟩
    · exact unchanged
    · exact absurd ⟨header, reference, condition, input, operator_eq⟩ reads

/-- An evaluation that uses relations reads that of its operator, once. -/
theorem read_of_mem_uses {world : World} {operator : QueryTree} {use : RelationUse}
    (member : use ∈ world.uses operator) :
    ∃ reference, operator.relation? = some reference ∧ use = .read reference.place ∧
      world.uses operator = [use] := by
  rw [uses.eq_def] at member ⊢
  split at member
  · split at member
    · cases member
    · rename_i settled
      split at member
      · split at member
        · cases member
        · rename_i data
          obtain rfl := List.mem_singleton.mp member
          exact ⟨_, rfl, rfl, by simp [settled, data]⟩
      · cases member
  · cases member

/-- The transactions of relations end one after the other. -/
theorem endTransactions_catalog (world : World) (operators : List QueryTree) :
    (world.endTransactions world.catalog.access.mode operators).catalog =
      world.catalog.useAll (transactionEnds operators) := by
  simp only [endTransactions]
  generalize mode_eq : world.catalog.access.mode = mode
  generalize world.catalog = catalog at mode_eq
  induction operators generalizing catalog with
  | nil => rfl
  | cons operator operators induction =>
      rw [List.foldl_cons, transactionEnds, List.filterMap_cons]
      cases operator.relation? with
      | none => exact induction catalog mode_eq
      | some reference =>
          subst mode_eq
          exact induction (catalog.use (.endTransaction reference.place)) (Catalog.mode_use _ _)

end World

/-! ## Turns -/

namespace Schedule

variable {schedule : Schedule} {operator : QueryTree}

theorem evaluateBatch_catalog (schedule : Schedule) (operator : QueryTree) (count : Nat)
    (execution : Execution) :
    (schedule.evaluateBatch operator count execution).1.world.catalog =
      execution.world.catalog.useAll
        ((schedule.batchFirings operator count execution).flatMap Firing.uses) := by
  induction count generalizing execution with
  | zero => rfl
  | succ count induction =>
      have catalog_eq := execution.world.evaluate_catalog_eq_useAll (schedule.role operator.id)
        operator
      rw [evaluateBatch, batchFirings, List.flatMap_cons, Catalog.useAll_append]
      rcases evaluated : execution.world.evaluate (schedule.role operator.id) operator with
        ⟨after, error | step⟩
      · rw [evaluated] at catalog_eq
        exact catalog_eq
      · rw [evaluated] at catalog_eq
        simp only
        split
        · exact catalog_eq
        · exact (induction _).trans (congrArg (Catalog.useAll · _) catalog_eq)

/-- Relations are released when a transaction ends, and otherwise left alone. -/
theorem react_catalog (schedule : Schedule) (execution : Execution) (step : Step) :
    (schedule.react execution step).world.catalog =
      if execution.metrics.afterCommits < (schedule.react execution step).metrics.afterCommits then
        (execution.world.endTransactions schedule.mode schedule.order).catalog
      else
        execution.world.catalog := by
  have pessimistically : (schedule.reactPessimistically execution step).world.catalog =
      if execution.metrics.afterCommits <
          (schedule.reactPessimistically execution step).metrics.afterCommits then
        (execution.world.endTransactions schedule.mode schedule.order).catalog
      else
        execution.world.catalog := by
    cases step with
    | pendingAbort waiting =>
        rw [reactPessimistically]
        split
        · rw [endTransaction_catalog, endTransaction_metrics, if_pos (Nat.lt_succ_self _)]
        · rw [if_neg (Nat.lt_irrefl _)]
    | _ => exact (if_neg (Nat.lt_irrefl _)).symm
  cases mode : schedule.mode with
  | uncontrolled =>
      simp only [react, mode]
      rw [if_neg (Nat.lt_irrefl _)]
  | optimistic =>
      rw [react_catalog_of_optimistic mode]
      have metrics_eq : (schedule.react execution step).metrics.afterCommits =
          execution.metrics.afterCommits := by
        simp only [react, mode]
        rcases step with _ | _ | _ | (_ | _) | _ | _ <;> rfl
      rw [metrics_eq, if_neg (Nat.lt_irrefl _)]
  | twoPhaseLocking => simpa only [react, mode] using pessimistically
  | snapshot => simpa only [react, mode] using pessimistically

/-- What a turn makes of the catalog. -/
theorem wakeUp_catalog {execution : Execution}
    (mode_eq : execution.world.catalog.access.mode = schedule.mode) :
    (schedule.wakeUp execution).1.world.catalog =
      execution.world.catalog.useAll (schedule.turnUses execution) := by
  rw [turnUses]
  cases next : schedule.order[execution.cursor]? with
  | none =>
      rw [wakeUp, firings, next]
      simp only [Nat.lt_irrefl, if_false]
      rfl
  | some operator =>
      have firings_eq : schedule.firings execution =
          schedule.batchFirings operator execution.batchCount
            (schedule.advanceCursor execution) := by
        rw [firings, next]
      have catalog_eq := schedule.evaluateBatch_catalog operator execution.batchCount
        (schedule.advanceCursor execution)
      have continues := schedule.evaluateBatch_continues operator execution.batchCount
        (schedule.advanceCursor execution)
      rw [← firings_eq] at catalog_eq
      rw [Catalog.useAll_append]
      rcases batch : schedule.evaluateBatch operator execution.batchCount
        (schedule.advanceCursor execution) with ⟨after, error | step⟩
      all_goals rw [batch] at catalog_eq continues
      · have afterCommits_eq : after.metrics.afterCommits = execution.metrics.afterCommits :=
          continues.afterCommits_eq
        rw [wakeUp_of_error next batch, afterCommits_eq, if_neg (Nat.lt_irrefl _)]
        exact catalog_eq
      · have after_mode : after.world.catalog.access.mode = schedule.mode := by
          rw [catalog_eq, Catalog.mode_useAll]
          exact mode_eq
        have afterCommits_eq : execution.metrics.afterCommits = after.metrics.afterCommits :=
          continues.afterCommits_eq.symm
        rw [wakeUp_of_ok next batch, react_catalog, afterCommits_eq, ← after_mode]
        split
        · rw [World.endTransactions_catalog, catalog_eq]
          rfl
        · exact catalog_eq

theorem perform_catalog {execution : Execution}
    (mode_eq : execution.world.catalog.access.mode = schedule.mode) (action : Action) :
    (schedule.perform execution action).world.catalog =
      execution.world.catalog.useAll (schedule.actionUses execution action) := by
  cases action with
  | wakeUp => exact wakeUp_catalog mode_eq
  | _ => rfl

/-- What a run makes of the catalog. -/
theorem performAll_catalog {execution : Execution}
    (mode_eq : execution.world.catalog.access.mode = schedule.mode) (actions : List Action) :
    (schedule.performAll execution actions).world.catalog =
      execution.world.catalog.useAll (schedule.uses execution actions) := by
  induction actions generalizing execution with
  | nil => rfl
  | cons action actions induction =>
      have next := induction ((schedule.perform_mode execution action).trans mode_eq)
      rw [uses, Catalog.useAll_append, ← perform_catalog mode_eq]
      exact next

/-! ## Readers -/

theorem operator_of_mem_batchFirings {count : Nat} {execution : Execution} {firing : Firing}
    (member : firing ∈ schedule.batchFirings operator count execution) :
    firing.operator = operator := by
  induction count generalizing execution with
  | zero => cases member
  | succ count induction =>
      rw [batchFirings] at member
      rcases List.mem_cons.mp member with rfl | later
      · rfl
      · split at later
        · cases later
        · split at later
          · cases later
          · exact induction later

theorem operator_mem_order {execution : Execution} {firing : Firing}
    (member : firing ∈ schedule.firings execution) : firing.operator ∈ schedule.order := by
  rw [firings] at member
  split at member
  · cases member
  · rename_i operator next
    rw [operator_of_mem_batchFirings member]
    exact List.mem_of_getElem? next

/-- In a run relations are read by operators of the tree. -/
theorem exists_operator_of_read {execution : Execution} {actions : List Action} {place : Nat}
    (member : .read place ∈ schedule.uses execution actions) :
    ∃ operator ∈ schedule.order, ∃ reference,
      operator.relation? = some reference ∧ reference.place = place := by
  induction actions generalizing execution with
  | nil => cases member
  | cons action actions induction =>
      rcases List.mem_append.mp member with now | later
      · cases action with
        | wakeUp =>
            rcases List.mem_append.mp now with evaluated | ended
            · obtain ⟨firing, firing_mem, used⟩ := List.mem_flatMap.mp evaluated
              obtain ⟨reference, reads, use_eq, _⟩ := World.read_of_mem_uses used
              cases use_eq
              exact ⟨firing.operator, operator_mem_order firing_mem, reference, reads, rfl⟩
            · split at ended
              · obtain ⟨operator, _, end_eq⟩ := List.mem_filterMap.mp ended
                obtain ⟨reference, _, same⟩ := Option.map_eq_some_iff.mp end_eq
                cases same
              · cases ended
        | load place row => cases List.mem_singleton.mp now
        | update place change => cases List.mem_singleton.mp now
        | _ => cases now
      · exact induction later

/-! ## Evaluations in a run -/

theorem exists_uses_of_mem_batchFirings {count : Nat} {execution : Execution} {firing : Firing}
    (member : firing ∈ schedule.batchFirings operator count execution) :
    ∃ earlier later,
      (schedule.batchFirings operator count execution).flatMap Firing.uses =
        earlier ++ firing.uses ++ later ∧
      firing.before.catalog = execution.world.catalog.useAll earlier := by
  induction count generalizing execution with
  | zero => cases member
  | succ count induction =>
      rw [batchFirings] at member ⊢
      rcases List.mem_cons.mp member with rfl | member
      · exact ⟨[], _, List.flatMap_cons, rfl⟩
      · have catalog_eq := execution.world.evaluate_catalog_eq_useAll (schedule.role operator.id)
          operator
        rcases evaluated : execution.world.evaluate (schedule.role operator.id) operator with
          ⟨after, error | step⟩
        · simp [evaluated] at member
        · rw [evaluated] at catalog_eq
          by_cases last : (step = .idle || step.isSignal) = true
          · simp [evaluated, last] at member
          · simp only [evaluated, last, Bool.false_eq_true, if_false] at member ⊢
            obtain ⟨earlier, later, uses_eq, before_eq⟩ := induction member
            refine ⟨execution.world.uses operator ++ earlier, later, ?_, ?_⟩
            · rw [List.flatMap_cons, uses_eq, List.append_assoc, List.append_assoc,
                List.append_assoc]
              rfl
            · rw [before_eq, Catalog.useAll_append, ← catalog_eq]
              rfl

theorem exists_uses_of_mem_firings {execution : Execution} {firing : Firing}
    (member : firing ∈ schedule.firings execution) :
    ∃ earlier later, schedule.turnUses execution = earlier ++ firing.uses ++ later ∧
      firing.before.catalog = execution.world.catalog.useAll earlier := by
  rw [turnUses]
  rw [firings] at member ⊢
  split at member
  · cases member
  · obtain ⟨earlier, later, uses_eq, before_eq⟩ := exists_uses_of_mem_batchFirings member
    rw [uses_eq]
    exact ⟨earlier, later ++ _, List.append_assoc _ _ _, before_eq⟩

/-- An evaluation in a run finds the relations as earlier uses have left them. -/
theorem exists_uses_of_mem_trace {execution : Execution}
    (mode_eq : execution.world.catalog.access.mode = schedule.mode) {actions : List Action}
    {firing : Firing} (member : firing ∈ schedule.trace execution actions) :
    ∃ earlier later,
      schedule.uses execution actions = earlier ++ firing.uses ++ later ∧
      firing.before.catalog = execution.world.catalog.useAll earlier := by
  induction actions generalizing execution with
  | nil => cases member
  | cons action actions induction =>
      rw [uses]
      rcases List.mem_append.mp member with now | later_on
      · cases action with
        | wakeUp =>
            obtain ⟨earlier, later, uses_eq, before_eq⟩ := exists_uses_of_mem_firings now
            rw [actionUses, uses_eq]
            exact ⟨earlier, later ++ _, List.append_assoc _ _ _, before_eq⟩
        | _ => cases now
      · obtain ⟨earlier, later, uses_eq, before_eq⟩ :=
          induction ((schedule.perform_mode execution action).trans mode_eq) later_on
        refine ⟨schedule.actionUses execution action ++ earlier, later, ?_, ?_⟩
        · simp only [uses_eq, List.append_assoc]
        · rw [before_eq, Catalog.useAll_append, perform_catalog mode_eq]

end Schedule

namespace Deployment

variable (deployment : Deployment)

theorem start_catalog_eq : deployment.start.world.catalog = deployment.openedCatalog := by
  have unlocked_eq : ∀ relation ∈ deployment.start.world.catalog.relations,
      relation.unlock = relation := by
    intro relation member
    rw [start_catalog, World.initial] at member
    obtain ⟨⟨declared, place⟩, _, rfl⟩ := List.mem_map.mp member
    rfl
  rw [openedCatalog, Catalog.opened, List.map_congr_left unlocked_eq, List.map_id', start_catalog,
    ← deployment.mode_eq]
  rfl

/-- What a run makes of the catalog. -/
theorem run_catalog (actions : List Action) :
    (deployment.run actions).world.catalog =
      deployment.openedCatalog.useAll (deployment.uses actions) := by
  have mode_eq : deployment.start.world.catalog.access.mode = deployment.schedule.mode := by
    rw [start_catalog]
    rfl
  rw [run, Schedule.performAll_catalog mode_eq, start_catalog_eq, uses]

end Deployment

end StreamQuery
