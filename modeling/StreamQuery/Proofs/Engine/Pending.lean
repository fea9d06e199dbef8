import StreamQuery.Proofs.Engine.Ends
import StreamQuery.Proofs.Engine.Responses

/-!
# Open commits

A commit is opened by the evaluation that reports it, and by nothing else. An operator that has no
open commit reports signals only as far as its part in concurrency control allows.
-/

namespace StreamQuery

/-- The steps that an operator without an open commit can report. -/
def Step.IsAllowed (role : CommitRole) : Step → Prop
  | lostConsistency _ => role.checksConsistency = true
  | commit _ => role.signalsCommit = true
  | pendingAbort _ => False
  | _ => True

theorem Step.isAllowed_of_quiet {step : Step} (quiet : step.isSignal = false) (role : CommitRole) :
    step.IsAllowed role := by
  cases step with
  | lostConsistency committed? => cases quiet
  | commit mark => cases quiet
  | pendingAbort waiting => cases quiet
  | _ => trivial

theorem Aggregation.opensCommit_of_quiet {step : Step} (quiet : step.isSignal = false)
    (role : CommitRole) : opensCommit role (.ok step) = false := by
  cases step <;> first | rfl | cases quiet

theorem Aggregation.stepOf_isAllowed {role : CommitRole}
    {compute : Contents → Except OperatorError Tuple} {windows : List Contents} {step : Step}
    (reported : stepOf role (Evaluation.ofWindows compute role.checksConsistency windows) =
      .ok step) : step.IsAllowed role := by
  rw [stepOf] at reported
  split at reported
  · cases reported
  · rename_i lost
    cases reported
    exact Evaluation.checks_of_lostConsistency lost
  · split at reported
    · cases reported
      cases signals : role.signalsCommit with
      | true => exact signals
      | false => trivial
    · cases reported
      trivial

/-! ## Cells -/

namespace Cell

variable {cell : Cell} {role : CommitRole}

/-- What an operator reports decides whether it has an open commit. -/
structure Reports (role : CommitRole) (cell : Cell) (outcome : Cell × Except OperatorError Step) :
    Prop where
  /-- A commit stays open, or the step opens one. -/
  pending_eq : outcome.1.hasPendingCommit =
    (cell.hasPendingCommit || Aggregation.opensCommit role outcome.2)
  /-- The step is one that the operator may report. -/
  allowed : ∀ step, outcome.2 = .ok step → step.IsAllowed role

theorem Reports.of_quiet {outcome : Cell × Except OperatorError Step}
    (pending_eq : outcome.1.hasPendingCommit = cell.hasPendingCommit)
    (quiet : ∀ step, outcome.2 = .ok step → step.isSignal = false) : Reports role cell outcome where
  pending_eq := by
    rw [pending_eq]
    cases step_eq : outcome.2 with
    | error error => exact (Bool.or_false _).symm
    | ok step => rw [Aggregation.opensCommit_of_quiet (quiet step step_eq), Bool.or_false]
  allowed step step_eq := Step.isAllowed_of_quiet (quiet step step_eq) role

theorem Reports.of_failed {after : Cell}
    (pending_eq : after.hasPendingCommit = cell.hasPendingCommit) (error : OperatorError) :
    Reports role cell (after, .error error) :=
  .of_quiet pending_eq (by rintro _ ⟨⟩)

theorem Reports.congr {old : Cell} {outcome : Cell × Except OperatorError Step}
    (reports : Reports role cell outcome)
    (pending_eq : cell.hasPendingCommit = old.hasPendingCommit) : Reports role old outcome :=
  ⟨pending_eq ▸ reports.pending_eq, reports.allowed⟩

theorem reports_deliver (cell : Cell) (role : CommitRole)
    (outcome : Except OperatorError (List Tuple)) : Reports role cell (cell.deliver outcome) := by
  rcases outcome with error | (_ | ⟨result, results⟩)
  · exact .of_failed rfl _
  · exact .of_quiet rfl (by rintro _ ⟨⟩; rfl)
  · exact .of_quiet rfl (by rintro _ ⟨⟩; rfl)

theorem reports_passOn (cell : Cell) (role : CommitRole) (name : String) :
    Reports role cell (cell.passOn name) := by
  rw [passOn]
  split
  · rename_i arrivals memory_eq
    have settled : cell.hasPendingCommit = false := by
      rw [hasPendingCommit, memory_eq]
      rfl
    split
    · exact .of_quiet rfl (by rintro _ ⟨⟩; rfl)
    · exact .of_quiet settled.symm (by rintro _ ⟨⟩; rfl)
  · exact .of_failed rfl _

theorem reports_select (cell : Cell) (role : CommitRole) (name : String) (condition : Condition)
    (tuple : Tuple) : Reports role cell (cell.select name condition tuple) := by
  rw [select]
  split
  · rename_i seen passed memory_eq
    refine (reports_deliver _ role _).congr ?_
    rw [hasPendingCommit, hasPendingCommit, memory_eq]
    rfl
  · exact .of_failed rfl _

/-- Only an aggregation that reports a commit opens one. -/
theorem reports_aggregate (cell : Cell) (header : OperatorHeader) (function : AggregateFunction)
    (role : CommitRole) (tuple : Tuple) :
    Reports role cell (cell.aggregate header function role tuple) := by
  rw [aggregate]
  split
  · rename_i aggregation memory_eq
    have pending_eq : (aggregation.accept function header.schema role tuple).1.pendingCommit =
        (cell.hasPendingCommit || Aggregation.opensCommit role
          (aggregation.accept function header.schema role tuple).2.2) := by
      rw [hasPendingCommit, memory_eq]
      rfl
    have allowed : ∀ step, (aggregation.accept function header.schema role tuple).2.2 = .ok step →
        step.IsAllowed role := fun step => Aggregation.stepOf_isAllowed
    simp only
    split
    · rename_i step step_eq
      rw [step_eq] at pending_eq
      exact ⟨pending_eq, fun other other_eq => allowed other (step_eq.trans other_eq)⟩
    · rename_i error error_eq
      rw [error_eq] at pending_eq
      exact ⟨pending_eq, by rintro _ ⟨⟩⟩
  · exact .of_failed rfl _

theorem reports_joinArrivals (cell : Cell) (role : CommitRole) (header : OperatorHeader)
    (condition : Condition) (arrivals : List (Side × Tuple)) :
    Reports role cell (cell.joinArrivals header condition arrivals) := by
  rw [joinArrivals]
  split
  · rename_i state memory_eq
    have settled : cell.hasPendingCommit = false := by
      rw [hasPendingCommit, memory_eq]
      rfl
    simp only
    split
    · exact (reports_deliver _ role _).congr settled.symm
    · exact (Reports.of_failed rfl _).congr settled.symm
  · exact .of_failed rfl _

end Cell

/-! ## Evaluations -/

namespace World

variable {world : World} {role : CommitRole} {header : OperatorHeader} {id other : Nat}

theorem hasPendingCommit_of_memory?_eq {after : World}
    (memory_eq : after.memory? id = world.memory? id) :
    after.hasPendingCommit id = world.hasPendingCommit id := by
  rw [hasPendingCommit_eq, hasPendingCommit_eq, memory_eq]

theorem memory?_act_of_ne (different : other ≠ header.id)
    (action : Cell → Cell × Except OperatorError Step) :
    (world.act header action).1.memory? other = world.memory? other := by
  rw [act]
  split
  · exact memory?_modifyCell_of_ne _ different _
  · rfl

/-- Other operators remember what they did. -/
theorem memory?_evaluate_of_ne {operator : QueryTree} (different : other ≠ operator.id)
    (role : CommitRole) :
    (world.evaluate role operator).1.memory? other = world.memory? other := by
  cases operator with
  | source header => exact memory?_act_of_ne different _
  | join header logic left right =>
      have different : other ≠ header.id := different
      simp only [evaluate, evaluateJoin]
      split
      · rfl
      · rw [memory?_act_of_ne different, memory?_take, memory?_take]
  | single header logic input =>
      have different : other ≠ header.id := different
      simp only [evaluate, evaluateSingle]
      split
      · split
        · exact memory?_modifyCell_of_ne _ different _
        · rfl
      · split
        · rfl
        · rename_i tuple rest taken
          have counted_eq : (rest.modifyCell header.id (·.consume 1)).memory? other =
              world.memory? other := by
            rw [memory?_modifyCell_of_ne _ different]
            simpa [taken] using world.memory?_take input.id other
          split
          · rw [memory?_act_of_ne different, counted_eq]
          · cases logic with
            | combine reference condition =>
                simp only [process]
                split
                · exact counted_eq
                · exact (memory?_act_of_ne different _).trans counted_eq
            | _ => exact (memory?_act_of_ne different _).trans counted_eq

theorem hasPendingCommit_of_restart {spared? : Option Nat} {ids : List Nat} {id : Nat}
    (opened : (world.restart spared? ids).hasPendingCommit id = true) :
    world.hasPendingCommit id = true := by
  rw [hasPendingCommit_eq] at opened ⊢
  rw [memory?_restart] at opened
  split at opened
  · cases remembered : world.memory? id with
    | none =>
        rw [remembered] at opened
        cases opened
    | some memory =>
        rw [remembered] at opened
        cases memory <;> cases opened
  · exact opened

theorem hasPendingCommit_of_closeCommit {own id : Nat}
    (opened : (world.modifyCell own Cell.closeCommit).hasPendingCommit id = true) :
    world.hasPendingCommit id = true := by
  by_cases same : id = own
  · subst same
    cases found : world.cells[id]? with
    | none => simp [hasPendingCommit, getElem?_modifyCell_self, found] at opened
    | some cell =>
        have closed : cell.closeCommit.hasPendingCommit = true := by
          simpa [hasPendingCommit, getElem?_modifyCell_self, found] using opened
        rw [hasPendingCommit_of_getElem? found]
        rw [Cell.closeCommit] at closed
        split at closed
        · cases closed
        · exact closed
  · rwa [hasPendingCommit_of_memory?_eq (memory?_modifyCell_of_ne _ same _)] at opened

theorem hasPendingCommit_modifyArrivals {source id : Nat} {change : Channel → Channel} :
    (world.modifyArrivals source change).hasPendingCommit id = world.hasPendingCommit id := by
  rw [hasPendingCommit_eq, hasPendingCommit_eq]
  rcases world.memory?_modifyArrivals source change id with
    ⟨same, _⟩ | ⟨_, arrivals, remembered, changed⟩
  · rw [same]
  · rw [changed, remembered]
    rfl

/-- An operator without an open commit has one afterwards if and only if it reports that. -/
structure Reports (role : CommitRole) (own : Nat) (outcome : World × Except OperatorError Step) :
    Prop where
  /-- The step opens a commit. -/
  pending_eq : outcome.1.hasPendingCommit own = Aggregation.opensCommit role outcome.2
  /-- The step is one that the operator may report. -/
  allowed : ∀ step, outcome.2 = .ok step → step.IsAllowed role

theorem Reports.of_failed (settled : world.hasPendingCommit id = false) (error : OperatorError) :
    Reports role id (world, .error error) :=
  ⟨settled, by rintro _ ⟨⟩⟩

theorem reports_act (settled : world.hasPendingCommit header.id = false)
    {action : Cell → Cell × Except OperatorError Step}
    (reports : ∀ cell, Cell.Reports role cell (action cell)) :
    Reports role header.id (world.act header action) := by
  cases found : world.cells[header.id]? with
  | none =>
      rw [act, found]
      exact .of_failed settled _
  | some cell =>
      rw [act_of_getElem? found]
      refine ⟨?_, (reports cell).allowed⟩
      have after_found : (world.modifyCell header.id fun _ => (action cell).1).cells[header.id]? =
          some (action cell).1 := by
        rw [getElem?_modifyCell_self, found]
        rfl
      rw [hasPendingCommit_of_getElem? found] at settled
      rw [hasPendingCommit_of_getElem? after_found, (reports cell).pending_eq, settled,
        Bool.false_or]

theorem reports_of_idle (settled : world.hasPendingCommit id = false) :
    Reports role id (world, .ok .idle) := by
  refine ⟨settled, ?_⟩
  rintro step ⟨⟩
  trivial

theorem reports_process (settled : world.hasPendingCommit header.id = false) (logic : SingleLogic)
    (tuple : Tuple) : Reports role header.id (world.process role header logic tuple) := by
  cases logic with
  | select condition =>
      exact reports_act settled fun cell => cell.reports_select role header.name condition tuple
  | project indices => exact reports_act settled fun cell => cell.reports_deliver role _
  | combine reference condition =>
      simp only [process]
      split
      · exact .of_failed settled _
      · refine reports_act ?_ fun cell => cell.reports_deliver role _
        exact settled
  | aggregate window function =>
      exact reports_act settled fun cell => cell.reports_aggregate header function role tuple

theorem reports_evaluate {operator : QueryTree}
    (settled : world.hasPendingCommit operator.id = false) (role : CommitRole) :
    Reports role operator.id (world.evaluate role operator) := by
  cases operator with
  | source header => exact reports_act settled fun cell => cell.reports_passOn role header.name
  | join header logic left right =>
      rw [evaluate, evaluateJoin]
      simp only
      split
      · exact reports_of_idle settled
      · refine reports_act ?_ fun cell => cell.reports_joinArrivals role header _ _
        refine (hasPendingCommit_of_memory?_eq ?_).trans settled
        rw [memory?_take, memory?_take]
  | single header logic input =>
      have unopened : world.hasPendingCommit header.id = false := settled
      rw [evaluate, evaluateSingle, if_neg (by rw [unopened]; exact Bool.false_ne_true)]
      split
      · exact reports_of_idle settled
      · rename_i tuple rest taken
        have rest_settled : rest.hasPendingCommit header.id = false := by
          refine (hasPendingCommit_of_memory?_eq ?_).trans unopened
          simpa [taken] using world.memory?_take input.id header.id
        have counted_settled :
            (rest.modifyCell header.id (·.consume 1)).hasPendingCommit header.id = false := by
          cases found : rest.cells[header.id]? with
          | none => simp [hasPendingCommit, getElem?_modifyCell_self, found]
          | some cell =>
              rw [hasPendingCommit_of_getElem? found] at rest_settled
              have consumed_eq : (cell.consume 1).hasPendingCommit = false := rest_settled
              simpa [hasPendingCommit, getElem?_modifyCell_self, found] using consumed_eq
        simp only
        split
        · exact reports_act counted_settled fun cell => cell.reports_deliver role _
        · exact reports_process counted_settled logic tuple

end World

end StreamQuery
