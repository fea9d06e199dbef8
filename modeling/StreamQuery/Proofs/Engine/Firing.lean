import StreamQuery.Engine.Trace
import StreamQuery.Proofs.Engine.Flow

/-!
# Evaluations

What can be read off one evaluation: what was sent was computed from tuples that hold, the windows
that were completed consist of such tuples, and only a read of a relation touches the catalog.
-/

namespace StreamQuery

namespace World

variable {flow : FlowInvariant} {tree : QueryTree} {world : World} {role : CommitRole}

/-! ## The catalog -/

/-- Only an operator that reads a relation changes the catalog. -/
theorem evaluate_catalog (world : World) (role : CommitRole) (operator : QueryTree) :
    (world.evaluate role operator).1.catalog = world.catalog ∨
      ∃ header reference condition input relation snapshot,
        operator = .single header (.combine reference condition) input ∧
          world.catalog.relations[reference.place]? = some relation ∧
          world.catalog.readRelation reference.place relation =
            (snapshot, (world.evaluate role operator).1.catalog) := by
  cases operator with
  | source header => exact .inl (act_catalog _ _ _)
  | join header logic left right =>
      left
      simp only [evaluate, evaluateJoin]
      split
      · rfl
      · rw [act_catalog, take_catalog, take_catalog]
  | single header logic input =>
      simp only [evaluate, evaluateSingle]
      split
      · left
        split <;> rfl
      · split
        · exact .inl rfl
        · rename_i tuple rest taken
          have rest_catalog : rest.catalog = world.catalog := by
            simpa [taken] using take_catalog world input.id
          split
          · left
            rw [act_catalog, modifyCell_catalog, rest_catalog]
          · cases logic with
            | combine reference condition =>
                simp only [process, modifyCell_catalog, rest_catalog]
                split
                · exact .inl rest_catalog
                · rename_i relation found
                  right
                  refine ⟨header, reference, condition, input, relation,
                    (world.catalog.readRelation reference.place relation).1, rfl, found, ?_⟩
                  rw [act_catalog]
            | _ =>
                left
                simp [process, rest_catalog]

theorem evaluate_catalog_of_aggregate (world : World) (role : CommitRole) (header : OperatorHeader)
    (window : Window) (function : AggregateFunction) (input : QueryTree) :
    (world.evaluate role (.single header (.aggregate window function) input)).1.catalog =
      world.catalog := by
  rcases world.evaluate_catalog role (.single header (.aggregate window function) input) with
    unchanged | ⟨_, _, _, _, _, _, same, _⟩
  · exact unchanged
  · cases same

/-! ## Results and windows -/

/-- What an evaluation has sent was computed by the operator. -/
theorem mem_sent {schedule : Schedule} {operator : QueryTree}
    (steps : EvaluationSteps flow operator (schedule.role operator.id) world
      (world.evaluate (schedule.role operator.id) operator).1) {result : Tuple}
    (member : result ∈ (schedule.fire operator world).sent) :
    Yields world.catalog (world.evaluate (schedule.role operator.id) operator).1.catalog
      (schedule.role operator.id) flow.holds operator result := by
  simp only [Firing.sent, Schedule.fire] at member
  cases found : (world.evaluate (schedule.role operator.id) operator).1.cells[operator.id]? with
  | none => simp [output_of_getElem?_eq_none found] at member
  | some cell =>
      obtain ⟨old, old_found, results, output_eq, yielded, _⟩ := steps.self cell found
      rw [output_of_getElem? found, output_of_getElem? old_found, output_eq,
        Channel.enqueueAll_queue, List.drop_left] at member
      exact yielded result member

/-- The windows that an aggregation completes consist of tuples that hold for its input. -/
theorem holds_of_mem_completedWindows (carries : world.Carries flow tree) {header : OperatorHeader}
    {window : Window} {function : AggregateFunction} {input : QueryTree}
    (member : .single header (.aggregate window function) input ∈ tree.postOrder)
    {contents : Contents}
    (completed : contents ∈
      world.completedWindows (.single header (.aggregate window function) input))
    {tuple : Tuple} (inside : tuple ∈ contents.tuples) : flow.holds input tuple := by
  have input_mem : input ∈ tree.postOrder :=
    QueryTree.input_mem_postOrder member (by simp [QueryTree.inputs])
  simp only [completedWindows] at completed
  split at completed
  · simp at completed
  · split at completed
    · rename_i arriving aggregation peeked remembered
      split at completed
      · simp at completed
      · rcases Synopsis.mem_enqueue_window completed inside with held | rfl
        · obtain ⟨cell, found, aggregation_eq⟩ := Option.bind_eq_some_iff.mp remembered
          have memory_eq : cell.memory = .aggregate aggregation := by
            cases memory_eq : cell.memory <;>
              simp_all [Memory.aggregation?]
          have remembered := memory_eq ▸ (carries _ member cell found).memory
          exact remembered tuple held
        · cases found : world.cells[input.id]? with
          | none => simp [output_of_getElem?_eq_none found, Channel.peek?] at peeked
          | some cell =>
              rw [output_of_getElem? found] at peeked
              exact (carries input input_mem cell found).queue tuple (List.mem_of_head? peeked)
    · simp at completed

end World

end StreamQuery
