import StreamQuery.Proofs.Operator.Soundness
import StreamQuery.Proofs.Window.Held

/-!
# Operators that fail

What an operator has sent when its evaluation fails. The windows that one tuple completes lie within
each other, so that an aggregation fails at the first of them or not at all: in either case nothing
was sent before the failure. Only a join sends something, a marker, before it pairs tuples.
-/

namespace StreamQuery

/-! ## Windows that are completed together -/

/-- Of the windows that are over at one time, the later ones lie within the earlier ones. -/
theorem SpanBuffer.pairwise_close (window : Window) (time beginning : Int) (tuples : List Tuple) :
    (close window time beginning tuples).1.Pairwise fun first later =>
      later.tuples ⊆ first.tuples := by
  induction beginning, tuples using close_induction window time with
  | empty beginning tuples elapsed empty =>
      rw [close_of_isEmpty window elapsed empty]
      exact .nil
  | filled beginning tuples elapsed filled induction =>
      rw [close_of_filled window elapsed filled]
      refine List.pairwise_cons.mpr ⟨fun later reported other member => ?_, induction⟩
      exact (List.mem_filter.mp (mem_close (.inr ⟨later, reported, member⟩))).1
  | still_open beginning tuples still_open =>
      rw [close_of_open window still_open]
      exact .nil

theorem Synopsis.pairwise_enqueue (synopsis : Synopsis) (tuple : Tuple) :
    (synopsis.enqueue tuple).2.Pairwise fun first later => later.tuples ⊆ first.tuples := by
  cases synopsis with
  | rows buffer =>
      change (buffer.enqueue tuple).2.Pairwise _
      rcases buffer.enqueue_reports tuple with none_reported | reported
      · rw [none_reported]
        exact .nil
      · rw [reported]
        exact List.pairwise_singleton _ _
  | time buffer => exact SpanBuffer.pairwise_close _ _ _ _

/-! ## Results of windows -/

namespace AggregateFunction

variable {index : Nat}

theorem hasNumber_of_addValue {sum total : Value} {tuple : Tuple}
    (added : addValue index sum tuple = .ok total) : tuple.HasNumber index := by
  cases found : tuple.value? index with
  | none =>
      rw [addValue, found] at added
      cases added
  | some value =>
      cases value with
      | int number => exact ⟨_, found, rfl⟩
      | float number => exact ⟨_, found, rfl⟩
      | string text =>
          rw [addValue, found] at added
          cases added

theorem hasNumber_of_sum {tuples : List Tuple} {start total : Value}
    (summed : tuples.foldlM (addValue index) start = .ok total) :
    ∀ tuple ∈ tuples, tuple.HasNumber index := by
  induction tuples generalizing start with
  | nil => nofun
  | cons tuple tuples induction =>
      rw [List.foldlM_cons] at summed
      obtain ⟨sum, added, summed⟩ := bind_eq_ok.mp summed
      exact List.forall_mem_cons.mpr ⟨hasNumber_of_addValue added, induction summed⟩

/-- A window has a result if it lies within another one that has a result. -/
theorem exists_apply_of_subset {function : AggregateFunction} {schema : Schema}
    {first later : Contents} (within : later.tuples ⊆ first.tuples) (filled : later.tuples ≠ [])
    {result : Tuple} (computed : function.apply schema first = .ok result) :
    ∃ other, function.apply schema later = .ok other := by
  cases function with
  | mean index =>
      obtain ⟨values, found, _⟩ := bind_eq_ok.mp computed
      obtain ⟨sum, summed, _⟩ := bind_eq_ok.mp found
      exact exists_mean (fun tuple member => hasNumber_of_sum summed tuple (within member)) schema
  | election =>
      rw [apply, compute_election filled]
      exact ⟨_, rfl⟩

end AggregateFunction

/-- If later windows have results where earlier ones do, nothing is computed before a failure. -/
theorem Evaluation.results_of_failed {compute : Contents → Except OperatorError Tuple}
    {windows : List Contents} {checksConsistency : Bool}
    (inherits : windows.Pairwise fun first later => ∀ result, compute first = .ok result →
      ∃ other, compute later = .ok other) {error : OperatorError}
    (failed : (ofWindows compute checksConsistency windows).interruption? = some (.failed error)) :
    (ofWindows compute checksConsistency windows).results = [] := by
  cases windows with
  | nil => rfl
  | cons window windows =>
      rw [ofWindows] at failed ⊢
      split
      · rfl
      · rename_i consistent
        cases computed : compute window with
        | error _ => rfl
        | ok result =>
            rw [if_neg consistent, computed] at failed
            have succeeds (later : Contents) (member : later ∈ windows) :=
              (List.pairwise_cons.mp inherits).1 later member result computed
            exact absurd failed (ne_failed_of_forall checksConsistency succeeds error)

/-- An aggregation that fails has computed nothing. -/
theorem Aggregation.accept_of_error {aggregation : Aggregation} {function : AggregateFunction}
    {schema : Schema} {role : CommitRole} {tuple : Tuple} {error : OperatorError}
    (failed : (aggregation.accept function schema role tuple).2.2 = .error error) :
    (aggregation.accept function schema role tuple).2.1 = [] := by
  have inherits : (aggregation.synopsis.enqueue tuple).2.Pairwise fun first later =>
      ∀ result, function.apply schema first = .ok result →
        ∃ other, function.apply schema later = .ok other := by
    refine (aggregation.synopsis.pairwise_enqueue tuple).imp_of_mem ?_
    intro first later _ reported within result computed
    exact AggregateFunction.exists_apply_of_subset within
      (Synopsis.tuples_ne_nil_of_mem_enqueue reported) computed
  change stepOf role (.ofWindows (function.apply schema) role.checksConsistency
    (aggregation.synopsis.enqueue tuple).2) = .error error at failed
  rw [stepOf] at failed
  split at failed
  · exact Evaluation.results_of_failed inherits ‹_›
  · cases failed
  · split at failed <;> cases failed

/-! ## Operators -/

namespace Cell

/-- What an operator sends is counted unless its evaluation fails. If it fails, only what is given
is left behind. -/
structure CountsSent (left : List Tuple) (before : Cell)
    (outcome : Cell × Except OperatorError Step) : Prop where
  /-- Results are sent and counted. -/
  of_ok : ∀ step, outcome.2 = .ok step → ∃ results,
    outcome.1.output = before.output.enqueueAll results ∧
      outcome.1.emitted = before.emitted + results.length
  /-- What is left behind is sent but not counted. -/
  of_error : ∀ error, outcome.2 = .error error →
    outcome.1.output = before.output.enqueueAll left ∧ outcome.1.emitted = before.emitted

variable {cell : Cell} {left : List Tuple}

theorem CountsSent.congr {old : Cell} {outcome : Cell × Except OperatorError Step}
    (counts : old.CountsSent left outcome) (output_eq : old.output = cell.output)
    (emitted_eq : old.emitted = cell.emitted) : cell.CountsSent left outcome where
  of_ok step step_eq := output_eq ▸ emitted_eq ▸ counts.of_ok step step_eq
  of_error error failed := output_eq ▸ emitted_eq ▸ counts.of_error error failed

theorem CountsSent.succeeds {after : Cell} {step : Step} (results : List Tuple)
    (output_eq : after.output = cell.output.enqueueAll results)
    (emitted_eq : after.emitted = cell.emitted + results.length) :
    cell.CountsSent left (after, .ok step) where
  of_ok _ _ := ⟨results, output_eq, emitted_eq⟩
  of_error _ := nofun

theorem CountsSent.fails {after : Cell} {error : OperatorError}
    (output_eq : after.output = cell.output.enqueueAll left)
    (emitted_eq : after.emitted = cell.emitted) : cell.CountsSent left (after, .error error) where
  of_ok _ := nofun
  of_error _ _ := ⟨output_eq, emitted_eq⟩

/-- Nothing is sent, whether the evaluation fails or not. -/
theorem CountsSent.of_eq {after : Cell} {step : Except OperatorError Step}
    (output_eq : after.output = cell.output) (emitted_eq : after.emitted = cell.emitted) :
    cell.CountsSent [] (after, step) where
  of_ok _ _ := ⟨[], output_eq, emitted_eq⟩
  of_error _ _ := ⟨output_eq, emitted_eq⟩

theorem countsSent_deliver_ok (cell : Cell) (left results : List Tuple) :
    cell.CountsSent left (cell.deliver (.ok results)) := by
  cases results with
  | nil => exact .succeeds [] rfl rfl
  | cons tuple tuples => exact .succeeds (tuple :: tuples) rfl rfl

theorem countsSent_deliver (cell : Cell) (outcome : Except OperatorError (List Tuple)) :
    cell.CountsSent [] (cell.deliver outcome) := by
  cases outcome with
  | error error => exact .of_eq rfl rfl
  | ok results => exact countsSent_deliver_ok cell [] results

theorem countsSent_passOn (cell : Cell) (name : String) :
    cell.CountsSent [] (cell.passOn name) := by
  rw [passOn]
  split
  · split
    · exact .of_eq rfl rfl
    · exact .succeeds [_] rfl rfl
  · exact .of_eq rfl rfl

theorem countsSent_select (cell : Cell) (name : String) (condition : Condition) (tuple : Tuple) :
    cell.CountsSent [] (cell.select name condition tuple) := by
  rw [select]
  split
  · exact (countsSent_deliver _ _).congr rfl rfl
  · exact .of_eq rfl rfl

/-- An aggregation leaves nothing behind. -/
theorem countsSent_aggregate (cell : Cell) (header : OperatorHeader) (function : AggregateFunction)
    (role : CommitRole) (tuple : Tuple) :
    cell.CountsSent [] (cell.aggregate header function role tuple) := by
  rw [aggregate]
  split
  · rename_i aggregation memory_eq
    rcases accepted : aggregation.accept function header.schema role tuple with
      ⟨after, results, error | step⟩
    · obtain rfl : results = [] := by
        have failed := aggregation.accept_of_error (congrArg (·.2.2) accepted)
        rwa [accepted] at failed
      exact .fails rfl rfl
    · exact .succeeds results rfl rfl
  · exact .of_eq rfl rfl

/-- A join that fails has completed a window. It leaves the markers behind that it sent before. -/
theorem countsSent_joinArrivals {state : WindowJoin} (memory_eq : cell.memory = .join state)
    (header : OperatorHeader) (condition : Condition) {arrivals : List (Side × Tuple)}
    {turn : WindowJoin.Turn}
    (turn_eq : arrivals.foldl WindowJoin.Turn.receive { join := state } = turn)
    (left_eq : turn.completed = true → turn.markers = left) :
    cell.CountsSent left (cell.joinArrivals header condition arrivals) := by
  simp only [joinArrivals, memory_eq, turn_eq]
  cases failed : turn.results condition header.schema with
  | ok results => exact (countsSent_deliver_ok _ _ _).congr rfl rfl
  | error error =>
      have completed : turn.completed = true := by
        rw [WindowJoin.Turn.results] at failed
        split at failed
        · assumption
        · cases failed
      rw [← left_eq completed]
      exact .fails rfl rfl

end Cell

end StreamQuery
