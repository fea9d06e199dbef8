import StreamQuery.Engine.Trace
import StreamQuery.Proofs.Engine.World

/-!
# Counters of aggregations

An aggregation counts the windows that it has looked at, and those of them that were consistent.
-/

namespace StreamQuery

/-- The windows that are looked at come first, and all of them are counted. -/
theorem Evaluation.ofWindows_counts (compute : Contents → Except OperatorError Tuple)
    (checksConsistency : Bool) (windows : List Contents) :
    ∃ looked, looked <+: windows ∧
      (ofWindows compute checksConsistency windows).evaluated = looked.length ∧
      (ofWindows compute checksConsistency windows).consistent =
        looked.countP Contents.isConsistent := by
  induction windows with
  | nil => exact ⟨[], List.prefix_refl [], rfl, rfl⟩
  | cons window windows induction =>
      have alone : [window] <+: window :: windows := ⟨windows, rfl⟩
      rw [ofWindows]
      split
      · exact ⟨[window], alone, rfl, by simp [List.countP_cons]⟩
      · split
        · exact ⟨[window], alone, rfl, by simp [List.countP_cons]⟩
        · obtain ⟨looked, looked_first, evaluated_eq, consistent_eq⟩ := induction
          refine ⟨window :: looked, List.cons_prefix_cons.mpr ⟨rfl, looked_first⟩, ?_, ?_⟩
          · simp [evaluated_eq, Nat.add_comm]
          · simp [consistent_eq, List.countP_cons, Nat.add_comm]

/-- An aggregation has looked at the first of some windows and has counted them. -/
def Cell.Counts (windows : List Contents) (before after : Cell) : Prop :=
  ∀ aggregation, before.memory = .aggregate aggregation →
    ∃ later looked, after.memory = .aggregate later ∧ looked <+: windows ∧
      later.evaluated = aggregation.evaluated + looked.length ∧
      later.consistent = aggregation.consistent + looked.countP Contents.isConsistent

namespace Cell

variable {windows : List Contents} {cell after : Cell}

theorem counts_of_memory_eq (memory_eq : after.memory = cell.memory) :
    cell.Counts windows after := by
  intro aggregation remembered
  exact ⟨aggregation, [], memory_eq.trans remembered, List.nil_prefix, rfl, rfl⟩

theorem deliver_memory (cell : Cell) (outcome : Except OperatorError (List Tuple)) :
    (cell.deliver outcome).1.memory = cell.memory := by
  rcases outcome with error | ⟨_ | ⟨first, results⟩⟩ <;> rfl

theorem counts_closeCommit (cell : Cell) : cell.Counts windows cell.closeCommit := by
  intro aggregation remembered
  refine ⟨{ aggregation with pendingCommit := false }, [], ?_, List.nil_prefix, rfl, rfl⟩
  simp [closeCommit, remembered]

theorem counts_aggregate {aggregation : Aggregation}
    (remembered : cell.memory = .aggregate aggregation)
    (header : OperatorHeader) (function : AggregateFunction) (role : CommitRole) (tuple : Tuple) :
    cell.Counts (aggregation.synopsis.enqueue tuple).2
      (cell.aggregate header function role tuple).1 := by
  intro other other_remembered
  obtain rfl : aggregation = other := by simpa [remembered] using other_remembered
  obtain ⟨looked, looked_first, evaluated_eq, consistent_eq⟩ := Evaluation.ofWindows_counts
    (function.apply header.schema) role.checksConsistency (aggregation.synopsis.enqueue tuple).2
  refine ⟨(aggregation.accept function header.schema role tuple).1, looked, ?_, looked_first,
    congrArg _ evaluated_eq, congrArg _ consistent_eq⟩
  rw [aggregate, remembered]
  simp only
  split <;> rfl

end Cell

namespace World

/-- The windows that an aggregation completes when it takes a data tuple. -/
theorem completedWindows_of_take {world rest : World} {header : OperatorHeader} {window : Window}
    {function : AggregateFunction} {input : QueryTree} {tuple : Tuple}
    (settled : ¬world.hasPendingCommit header.id = true)
    (taken : world.take input.id = (some tuple, rest)) (is_data : ¬tuple.isEndOfStream = true)
    {cell : Cell} (found : world.cells[header.id]? = some cell) {aggregation : Aggregation}
    (remembered : cell.memory = .aggregate aggregation) :
    world.completedWindows (.single header (.aggregate window function) input) =
      (aggregation.synopsis.enqueue tuple).2 := by
  have peeked : (world.output input.id).peek? = some tuple := by
    obtain ⟨source, queue, source_found, queue_eq, _⟩ := take_eq_some taken
    simp [output_of_getElem? source_found, Channel.peek?, queue_eq]
  simp [completedWindows, settled, peeked, found, remembered, Memory.aggregation?, is_data]

/-- An aggregation that is evaluated counts windows that it has completed. -/
theorem evaluate_counts {world : World} {role : CommitRole} {header : OperatorHeader}
    {window : Window} {function : AggregateFunction} {input : QueryTree}
    (different : input.id ≠ header.id) :
    Steps header.id
      (Cell.Counts
        (world.completedWindows (.single header (.aggregate window function) input)))
      world (world.evaluate role (.single header (.aggregate window function) input)).1 := by
  have stays : Steps header.id
      (Cell.Counts
        (world.completedWindows (.single header (.aggregate window function) input)))
      world world :=
    .of_drains (.refl _ world) fun old cell _ memory_eq _ => Cell.counts_of_memory_eq memory_eq
  simp only [evaluate, evaluateSingle]
  split
  · split
    · refine Steps.modifyCell (.refl _ world) fun old cell _ memory_eq _ => ?_
      intro aggregation remembered
      exact cell.counts_closeCommit aggregation (memory_eq.trans remembered)
    · exact stays
  · rename_i settled
    rcases taken : world.take input.id with ⟨_ | tuple, rest⟩
    · exact stays
    · have drained : Drains header.id world rest := by
        simpa [taken] using Drains.take different world
      have drains := drained.trans (.consume header.id 1 rest)
      simp only
      split
      · refine Steps.act drains fun old cell _ memory_eq _ => ?_
        exact Cell.counts_of_memory_eq ((cell.deliver_memory _).trans memory_eq)
      · rename_i is_data
        refine Steps.act drains fun old cell _ memory_eq found => ?_
        intro aggregation remembered
        rw [completedWindows_of_take settled taken is_data found remembered]
        exact Cell.counts_aggregate (memory_eq.trans remembered) header function role tuple
          aggregation (memory_eq.trans remembered)

end World

end StreamQuery
