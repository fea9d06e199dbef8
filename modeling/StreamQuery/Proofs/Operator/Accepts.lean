import StreamQuery.Operator.Aggregation

/-!
# What aggregations accept

If every window that a tuple completes has a result and consistency is not checked, all results are
sent, and a commit operator commits exactly when there is such a window. Under optimistic control a
window that is completed is given up, fails or is committed.
-/

namespace StreamQuery

theorem Evaluation.ofWindows_of_total {compute : Contents → Except OperatorError Tuple}
    {windows : List Contents} (total : ∀ window ∈ windows, ∃ result, compute window = .ok result) :
    (ofWindows compute false windows).results =
        windows.filterMap (fun window => (compute window).toOption) ∧
      (ofWindows compute false windows).mark?.isSome = !windows.isEmpty ∧
      (ofWindows compute false windows).interruption? = none := by
  induction windows with
  | nil => exact ⟨rfl, rfl, rfl⟩
  | cons window windows induction =>
      obtain ⟨result, computed⟩ := total window List.mem_cons_self
      obtain ⟨results_eq, _, uninterrupted⟩ :=
        induction fun later member => total later (List.mem_cons_of_mem _ member)
      simp only [ofWindows, Bool.false_and, Bool.false_eq_true, if_false, computed]
      refine ⟨?_, by simp, uninterrupted⟩
      rw [results_eq, List.filterMap_cons, computed]
      rfl

namespace Aggregation

variable {aggregation : Aggregation} {function : AggregateFunction} {schema : Schema}
  {role : CommitRole} {tuple : Tuple}

/-- What an aggregation makes of a tuple if all windows have results. -/
structure Sends (aggregation : Aggregation) (function : AggregateFunction) (schema : Schema)
    (role : CommitRole) (tuple : Tuple) (completes : Bool) (step : Step) : Prop where
  /-- A window is completed. -/
  completes_eq : completes = !(aggregation.synopsis.enqueue tuple).2.isEmpty
  /-- The tuple is buffered. -/
  synopsis_eq : (aggregation.accept function schema role tuple).1.synopsis =
    (aggregation.synopsis.enqueue tuple).1
  /-- A commit is open if it closes later. -/
  pending_eq : (aggregation.accept function schema role tuple).1.pendingCommit =
    (aggregation.pendingCommit || (role.signalsCommit && role.defersClose && completes))
  /-- The results of all windows are sent. -/
  results_eq : (aggregation.accept function schema role tuple).2.1 =
    (aggregation.synopsis.enqueue tuple).2.filterMap fun window =>
      (function.apply schema window).toOption
  /-- Nothing fails. -/
  step_eq : (aggregation.accept function schema role tuple).2.2 = .ok step
  /-- A commit operator reports completed windows. -/
  commits : (role.signalsCommit && completes) = true → ∃ mark, step = .commit mark
  /-- Otherwise there is nothing to report. -/
  quiet : (role.signalsCommit && completes) = false → step.isSignal = false

/-- The step of an evaluation without an interruption. -/
theorem exists_stepOf (role : CommitRole) {evaluation : Evaluation}
    (uninterrupted : evaluation.interruption? = none) :
    ∃ step, stepOf role evaluation = .ok step ∧
      ((role.signalsCommit && evaluation.mark?.isSome) = true → ∃ mark, step = .commit mark) ∧
      ((role.signalsCommit && evaluation.mark?.isSome) = false → step.isSignal = false) := by
  rw [stepOf, uninterrupted]
  cases evaluation.mark? with
  | none => exact ⟨.noOutput, rfl, by simp, fun _ => rfl⟩
  | some mark =>
      cases role.signalsCommit with
      | false => exact ⟨.emitted evaluation.results.length, rfl, by simp, fun _ => rfl⟩
      | true => exact ⟨.commit mark, rfl, fun _ => ⟨mark, rfl⟩, by simp⟩

theorem exists_sends (unchecked : role.checksConsistency = false)
    (total : ∀ window ∈ (aggregation.synopsis.enqueue tuple).2,
      ∃ result, function.apply schema window = .ok result) :
    ∃ completes step, aggregation.Sends function schema role tuple completes step := by
  obtain ⟨results_eq, marked, uninterrupted⟩ := Evaluation.ofWindows_of_total total
  obtain ⟨step, step_eq, commits, quiet⟩ := exists_stepOf role uninterrupted
  rw [marked] at commits quiet
  refine ⟨!(aggregation.synopsis.enqueue tuple).2.isEmpty, step, rfl, rfl, ?_, ?_, ?_, commits,
    quiet⟩
  · simp only [accept, unchecked, step_eq]
    congr 1
    cases signals : (role.signalsCommit && !(aggregation.synopsis.enqueue tuple).2.isEmpty) with
    | false =>
        have silent := quiet signals
        rw [Bool.and_right_comm, signals, Bool.false_and]
        cases step <;> first | rfl | cases silent
    | true =>
        obtain ⟨mark, rfl⟩ := commits signals
        rw [Bool.and_right_comm, signals, Bool.true_and]
        rfl
  · simp only [accept, unchecked, results_eq]
  · simp only [accept, unchecked, step_eq]

/-! ## Optimistic control -/

/-- What becomes of a completed window under optimistic control: its results and what is reported.
-/
inductive Settles (window : Contents) : List Tuple → Except OperatorError Step → Prop
  /-- A window with mixed versions is given up. -/
  | mixed (inconsistent : window.isConsistent = false) :
      Settles window [] (.ok (.lostConsistency none))
  /-- The result cannot be computed. -/
  | fails (error : OperatorError) : Settles window [] (.error error)
  /-- The result is sent and committed. -/
  | commits (result : Tuple) : Settles window [result] (.ok (.commit window.mark))

variable (function) (schema)

variable (role) in
theorem accept_of_nil (none_reported : (aggregation.synopsis.enqueue tuple).2 = []) :
    (aggregation.accept function schema role tuple).1.synopsis =
        (aggregation.synopsis.enqueue tuple).1 ∧
      (aggregation.accept function schema role tuple).1.pendingCommit = aggregation.pendingCommit ∧
      (aggregation.accept function schema role tuple).2.1 = [] ∧
      (aggregation.accept function schema role tuple).2.2 = .ok .noOutput := by
  simp [accept, none_reported, Evaluation.ofWindows, stepOf, opensCommit]

/-- Under optimistic control no commit stays open. -/
theorem accept_of_single (role_eq : role = .of .optimistic true) {window : Contents}
    (reported : (aggregation.synopsis.enqueue tuple).2 = [window]) :
    (aggregation.accept function schema role tuple).1.synopsis =
        (aggregation.synopsis.enqueue tuple).1 ∧
      (aggregation.accept function schema role tuple).1.pendingCommit = aggregation.pendingCommit ∧
      Settles window (aggregation.accept function schema role tuple).2.1
        (aggregation.accept function schema role tuple).2.2 := by
  subst role_eq
  refine ⟨rfl, ?_, ?_⟩
  · simp only [accept, opensCommit]
    split <;> exact Bool.or_false _
  · cases consistent : window.isConsistent with
    | false =>
        simp only [accept, reported, Evaluation.ofWindows, consistent]
        exact .mixed consistent
    | true =>
        cases computed : function.apply schema window with
        | error error =>
            simp only [accept, reported, Evaluation.ofWindows, consistent, computed]
            exact .fails error
        | ok result =>
            simp only [accept, reported, Evaluation.ofWindows, consistent, computed]
            exact .commits result

end Aggregation

end StreamQuery
