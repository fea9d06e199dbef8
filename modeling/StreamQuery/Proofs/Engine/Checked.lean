import Mathlib.Data.List.Forall2
import StreamQuery.Proofs.Engine.Sends
import StreamQuery.Proofs.Engine.Shapes
import StreamQuery.Proofs.Provenance

/-!
# Windows that are checked

Under optimistic control the commit operator may complete several windows with one tuple. It commits
them in order, each with its result, up to the first with mixed versions. Those that were committed
before a mixed one stay committed.
-/

namespace StreamQuery

namespace Evaluation

variable {compute : Contents → Except OperatorError Tuple}

/-- How the evaluation of checked windows ends after a number of results, with the windows that are
left. -/
inductive Leaves (compute : Contents → Except OperatorError Tuple) (done : Nat) :
    Evaluation → List Contents → Prop
  /-- Every window has its result. -/
  | none {evaluation : Evaluation} (evaluated_eq : evaluation.evaluated = done)
      (consistent_eq : evaluation.consistent = done)
      (interruption_eq : evaluation.interruption? = .none) : Leaves compute done evaluation []
  /-- A window has mixed versions. -/
  | mixed {evaluation : Evaluation} {window : Contents} (later : List Contents)
      (inconsistent : window.isConsistent = false)
      (evaluated_eq : evaluation.evaluated = done + 1)
      (consistent_eq : evaluation.consistent = done)
      (interruption_eq : evaluation.interruption? = some .lostConsistency) :
      Leaves compute done evaluation (window :: later)
  /-- A result cannot be computed. -/
  | failing {evaluation : Evaluation} {window : Contents} (later : List Contents)
      {error : OperatorError} (failed : compute window = .error error)
      (interruption_eq : evaluation.interruption? = some (.failed error)) :
      Leaves compute done evaluation (window :: later)

/-- The evaluation of windows of which the first is committed. -/
def afterCommit (window : Contents) (result : Tuple) (later : Evaluation) : Evaluation where
  evaluated := 1 + later.evaluated
  consistent := 1 + later.consistent
  results := result :: later.results
  mark? := later.mark?.or (some window.mark)
  interruption? := later.interruption?

theorem ofWindows_of_commit {window : Contents} (consistent : window.isConsistent = true)
    {result : Tuple} (computed : compute window = .ok result) (windows : List Contents) :
    ofWindows compute true (window :: windows) =
      afterCommit window result (ofWindows compute true windows) := by
  simp [ofWindows, consistent, computed, afterCommit]

theorem Leaves.afterCommit {done : Nat} {evaluation : Evaluation} {left : List Contents}
    (leaves : Leaves compute done evaluation left) (window : Contents) (result : Tuple) :
    Leaves compute (done + 1) (afterCommit window result evaluation) left := by
  cases leaves with
  | none evaluated_eq consistent_eq interruption_eq =>
      subst evaluated_eq
      exact .none (Nat.add_comm _ _) (consistent_eq ▸ Nat.add_comm _ _) interruption_eq
  | mixed later inconsistent evaluated_eq consistent_eq interruption_eq =>
      subst consistent_eq
      exact .mixed later inconsistent (evaluated_eq ▸ Nat.add_comm _ _) (Nat.add_comm _ _)
        interruption_eq
  | failing later failed interruption_eq => exact .failing later failed interruption_eq

/-- Checked windows are committed up to the first that is left. -/
structure Commits (compute : Contents → Except OperatorError Tuple) (evaluation : Evaluation)
    (committed left : List Contents) : Prop where
  /-- Those that are committed are consistent. -/
  consistent : ∀ window ∈ committed, window.isConsistent = true
  /-- Each of them has its result. -/
  results : List.Forall₂ (fun window result => compute window = .ok result) committed
    evaluation.results
  /-- The mark is that of the last one. -/
  mark?_eq : evaluation.mark? = committed.getLast?.map Contents.mark
  /-- What happens at the first window that is left. -/
  leaves : Leaves compute committed.length evaluation left

theorem exists_commits (compute : Contents → Except OperatorError Tuple)
    (windows : List Contents) :
    ∃ committed left, windows = committed ++ left ∧
      (ofWindows compute true windows).Commits compute committed left := by
  induction windows with
  | nil => exact ⟨[], [], rfl, by simp, .nil, rfl, .none rfl rfl rfl⟩
  | cons window windows induction =>
      cases consistent : window.isConsistent with
      | false =>
          refine ⟨[], window :: windows, rfl, ?_⟩
          simp only [ofWindows, consistent]
          exact ⟨by simp, .nil, rfl, .mixed windows consistent rfl rfl rfl⟩
      | true =>
          cases computed : compute window with
          | error error =>
              refine ⟨[], window :: windows, rfl, ?_⟩
              simp only [ofWindows, consistent, computed]
              exact ⟨by simp, .nil, rfl, .failing windows computed rfl⟩
          | ok result =>
              obtain ⟨committed, left, rfl, commits⟩ := induction
              refine ⟨window :: committed, left, rfl, ?_⟩
              rw [ofWindows_of_commit consistent computed]
              refine ⟨List.forall_mem_cons.mpr ⟨consistent, commits.consistent⟩,
                .cons computed commits.results, ?_, commits.leaves.afterCommit window result⟩
              rw [afterCommit, commits.mark?_eq, List.getLast?_cons]
              cases committed.getLast? <;> rfl

end Evaluation

namespace Aggregation

/-- What is reported and counted after windows were committed, with the windows that are left. -/
inductive Reports (compute : Contents → Except OperatorError Tuple) (before after : Aggregation) :
    List Contents → List Contents → Except OperatorError Step → Prop
  /-- No window was complete. -/
  | nothing (evaluated_eq : after.evaluated = before.evaluated)
      (consistent_eq : after.consistent = before.consistent) :
      Reports compute before after [] [] (.ok .noOutput)
  /-- All windows were committed, up to the mark of the last one. -/
  | commits (committed : List Contents) (last : Contents)
      (evaluated_eq : after.evaluated = before.evaluated + (committed ++ [last]).length)
      (consistent_eq : after.consistent = before.consistent + (committed ++ [last]).length) :
      Reports compute before after (committed ++ [last]) [] (.ok (.commit last.mark))
  /-- A window had mixed versions. -/
  | mixed (committed : List Contents) {window : Contents} (later : List Contents)
      (inconsistent : window.isConsistent = false)
      (evaluated_eq : after.evaluated = before.evaluated + (committed.length + 1))
      (consistent_eq : after.consistent = before.consistent + committed.length) :
      Reports compute before after committed (window :: later)
        (.ok (.lostConsistency (committed.getLast?.map Contents.mark)))
  /-- A result could not be computed. -/
  | fails (committed : List Contents) {window : Contents} (later : List Contents)
      {error : OperatorError} (failed : compute window = .error error) :
      Reports compute before after committed (window :: later) (.error error)

/-- What a commit operator makes of a tuple under optimistic control. -/
structure Checks (compute : Contents → Except OperatorError Tuple) (tuple : Tuple)
    (before after : Aggregation) (committed left : List Contents) (results : List Tuple)
    (step : Except OperatorError Step) : Prop where
  /-- The windows that the tuple completes. -/
  windows_eq : (before.synopsis.enqueue tuple).2 = committed ++ left
  /-- Those that are committed are consistent. -/
  consistent : ∀ window ∈ committed, window.isConsistent = true
  /-- Each of them has its result. -/
  results : List.Forall₂ (fun window result => compute window = .ok result) committed results
  /-- The tuple is buffered. -/
  synopsis_eq : after.synopsis = (before.synopsis.enqueue tuple).1
  /-- No commit stays open. -/
  pending_eq : after.pendingCommit = before.pendingCommit
  /-- The results are counted. -/
  emitted_eq : after.emitted = before.emitted + committed.length
  /-- What is reported and counted. -/
  reports : Reports compute before after committed left step

/-- The results of windows carry data. -/
theorem Checks.isEndOfStream_eq_false {function : AggregateFunction} {schema : Schema}
    {tuple : Tuple} {before after : Aggregation} {committed left : List Contents}
    {results : List Tuple} {step : Except OperatorError Step}
    (checks : Checks (function.apply schema) tuple before after committed left results step) :
    ∀ result ∈ results, result.isEndOfStream = false := by
  obtain ⟨-, -, computed, -, -, -, -⟩ := checks
  induction computed with
  | nil => simp
  | cons applied _ induction =>
      refine List.forall_mem_cons.mpr ⟨?_, induction⟩
      rw [Tuple.isEndOfStream, (AggregateFunction.apply_eq_ok applied).1]
      rfl

/-- Under optimistic control the commit operator checks the windows that it completes. -/
theorem exists_checks (aggregation : Aggregation) (function : AggregateFunction) (schema : Schema)
    (tuple : Tuple) {role : CommitRole} (role_eq : role = .of .optimistic true) :
    ∃ committed left, Checks (function.apply schema) tuple aggregation
      (aggregation.accept function schema role tuple).1 committed left
      (aggregation.accept function schema role tuple).2.1
      (aggregation.accept function schema role tuple).2.2 := by
  subst role_eq
  obtain ⟨committed, left, windows_eq, commits⟩ := Evaluation.exists_commits
    (function.apply schema) (aggregation.synopsis.enqueue tuple).2
  refine ⟨committed, left, windows_eq, commits.consistent, commits.results, rfl, ?_,
    congrArg (aggregation.emitted + ·) commits.results.length_eq.symm, ?_⟩
  · simp only [accept, opensCommit]
    split <;> exact Bool.or_false _
  · have evaluation_eq : (aggregation.accept function schema (.of .optimistic true) tuple).2.2 =
        stepOf (.of .optimistic true) (.ofWindows (function.apply schema) true
          (aggregation.synopsis.enqueue tuple).2) := rfl
    have mark?_eq := commits.mark?_eq
    rw [evaluation_eq, stepOf]
    cases commits.leaves with
    | none evaluated_eq consistent_eq interruption_eq =>
        rw [interruption_eq]
        rcases List.eq_nil_or_concat committed with rfl | ⟨earlier, last, rfl⟩
        · simp only [mark?_eq]
          exact .nothing (congrArg (aggregation.evaluated + ·) evaluated_eq)
            (congrArg (aggregation.consistent + ·) consistent_eq)
        · simp only [mark?_eq, List.concat_eq_append, List.getLast?_concat] at *
          exact .commits earlier last (congrArg (aggregation.evaluated + ·) evaluated_eq)
            (congrArg (aggregation.consistent + ·) consistent_eq)
    | mixed later inconsistent evaluated_eq consistent_eq interruption_eq =>
        rw [interruption_eq, mark?_eq]
        exact .mixed committed later inconsistent
          (congrArg (aggregation.evaluated + ·) evaluated_eq)
          (congrArg (aggregation.consistent + ·) consistent_eq)
    | failing later failed interruption_eq =>
        rw [interruption_eq]
        exact .fails committed later failed

/-- An evaluation of the commit operator under optimistic control: what it remembers afterwards, the
windows that it completes, what it sends and what it reports. -/
inductive Turns (compute : Contents → Except OperatorError Tuple) (aggregation : Aggregation) :
    Aggregation → List Contents → List Tuple → Except OperatorError Step → Prop
  /-- There is no input. -/
  | waits : Turns compute aggregation aggregation [] [] (.ok .idle)
  /-- An open commit is closed. -/
  | closes (waiting : Int) (opened : aggregation.pendingCommit = true) :
      Turns compute aggregation { aggregation with pendingCommit := false } [] []
        (.ok (.pendingAbort waiting))
  /-- The end of the input is passed on. -/
  | ends {marker : Tuple} (marks : marker.isEndOfStream = true) :
      Turns compute aggregation aggregation [] [marker] (.ok (.emitted 1))
  /-- A tuple is taken, and the windows that it completes are checked. -/
  | checks {tuple : Tuple} {later : Aggregation} {committed left : List Contents}
      {results : List Tuple} {step : Except OperatorError Step}
      (settled : aggregation.pendingCommit = false) (is_data : tuple.isEndOfStream = false)
      (checks : Checks compute tuple aggregation later committed left results step) :
      Turns compute aggregation later (committed ++ left) results step

end Aggregation

/-! ## Evaluations -/

namespace World

variable {tree : QueryTree} {world : World} {header : OperatorHeader} {window : Window}
  {function : AggregateFunction} {input : QueryTree} {aggregation : Aggregation}

theorem IsShaped.exists_aggregation (shaped : world.IsShaped tree)
    (member : .single header (.aggregate window function) input ∈ tree.postOrder) :
    ∃ aggregation, world.memory? header.id = some (.aggregate aggregation) := by
  obtain ⟨cell, found, shape⟩ := shaped _ member
  have memory_eq : world.memory? header.id = some cell.memory := memory?_of_getElem? found
  rw [Cell.IsShaped] at shape
  cases remembered : cell.memory with
  | aggregate aggregation => exact ⟨aggregation, memory_eq.trans (congrArg some remembered)⟩
  | _ =>
      rw [remembered] at shape
      cases shape

variable (window) (function) in
/-- What an evaluation of the commit operator under optimistic control does. -/
theorem exists_turn {role : CommitRole} (role_eq : role = .of .optimistic true)
    (remembered : world.memory? header.id = some (.aggregate aggregation))
    (different : input.id ≠ header.id) :
    ∃ later sent,
      (world.evaluate role (.single header (.aggregate window function) input)).1.memory?
          header.id = some (.aggregate later) ∧
        ((world.evaluate role (.single header (.aggregate window function) input)).1.output
            header.id).queue.drop (world.output header.id).queue.length = sent ∧
        Aggregation.Turns (function.apply header.schema) aggregation later
          (world.completedWindows (.single header (.aggregate window function) input)) sent
          (world.evaluate role (.single header (.aggregate window function) input)).2 := by
  cases waits : (world.output input.id).queue with
  | nil =>
      have nothing : world.completedWindows (.single header (.aggregate window function) input) =
          [] := completedWindows_of_no_data (by simp [waits])
      rw [evaluate_single_of_nil role (.aggregate window function) waits, nothing]
      exact ⟨aggregation, [], remembered, by simp, .waits⟩
  | cons tuple rest =>
      cases opened : aggregation.pendingCommit with
      | true =>
          obtain ⟨sends, step_eq, _⟩ :=
            evaluate_aggregate_of_open role input window function remembered opened waits
          have pending := (hasPendingCommit_of_memory? remembered).trans opened
          have nothing : world.completedWindows
              (.single header (.aggregate window function) input) = [] := by
            simp [completedWindows, pending]
          rw [step_eq, nothing]
          exact ⟨_, [], sends.memory, sends.sent, .closes tuple.lowWater opened⟩
      | false =>
          cases kind : tuple.isEndOfStream with
          | true =>
              have nothing : world.completedWindows
                  (.single header (.aggregate window function) input) = [] :=
                completedWindows_of_no_data (by simp [waits, kind])
              obtain ⟨sends, step_eq, _⟩ := evaluate_single_of_marker role
                (.aggregate window function) remembered
                ((hasPendingCommit_of_memory? remembered).trans opened) different waits kind
              rw [step_eq, nothing]
              exact ⟨aggregation, [tuple], sends.memory, sends.sent, .ends kind⟩
          | false =>
              obtain ⟨sends, step_eq, _⟩ := evaluate_aggregate role window function remembered
                opened different waits kind
              obtain ⟨committed, left, checks⟩ := aggregation.exists_checks function header.schema
                tuple role_eq
              rw [step_eq, completedWindows_of_data window function remembered opened waits kind,
                checks.windows_eq]
              exact ⟨_, _, sends.memory, sends.sent, .checks opened kind checks⟩

end World

end StreamQuery
