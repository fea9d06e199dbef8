import StreamQuery.Proofs.Chain.Reference
import StreamQuery.Proofs.Engine.Bare
import StreamQuery.Proofs.Engine.Sends

/-!
# Responses of operators

Without control an operator that is evaluated takes the oldest tuple from its input and sends the
response to it. What it remembers is determined by the tuples that it has taken, except that a
selection also counts them.
-/

namespace StreamQuery

/-- What an operator remembers of the tuples that it has taken. -/
inductive Remembers (taken : List Tuple) : SingleLogic → Memory → Prop
  | select (condition : Condition) (seen passed : Nat) :
      Remembers taken (.select condition) (.select seen passed)
  | project (indices : List Nat) : Remembers taken (.project indices) .stateless
  | combine (reference : RelationReference) (condition : Condition) :
      Remembers taken (.combine reference condition) .stateless
  | aggregate {window : Window} (function : AggregateFunction) {aggregation : Aggregation}
      (settled : aggregation.pendingCommit = false)
      (shows : aggregation.synopsis.Shows window (dataOf taken).reverse) :
      Remembers taken (.aggregate window function) (.aggregate aggregation)

theorem remembers_initial (header : OperatorHeader) (logic : SingleLogic) (input : QueryTree) :
    Remembers [] logic (.initial (.single header logic input)) := by
  cases logic with
  | select condition => exact .select condition 0 0
  | project indices => exact .project indices
  | combine reference condition => exact .combine reference condition
  | aggregate window function => exact .aggregate function rfl (Synopsis.shows_ofWindow window)

namespace Remembers

variable {taken : List Tuple} {logic : SingleLogic} {memory : Memory} {tuple : Tuple}

/-- A marker leaves no trace. -/
theorem append_marker (remembers : Remembers taken logic memory)
    (marks : tuple.isEndOfStream = true) : Remembers (taken ++ [tuple]) logic memory := by
  cases remembers with
  | select condition seen passed => exact .select condition seen passed
  | project indices => exact .project indices
  | combine reference condition => exact .combine reference condition
  | aggregate function settled shows =>
      exact .aggregate function settled (by rwa [dataOf_append_of_marker taken marks])

/-- Without control no commit is open. -/
theorem hasPendingCommit (remembers : Remembers taken logic memory) {world : World} {id : Nat}
    (remembered : world.memory? id = some memory) : world.hasPendingCommit id = false := by
  rw [World.hasPendingCommit_eq, remembered]
  cases remembers with
  | aggregate function settled shows => simp [Memory.aggregation?, settled]
  | _ => rfl

end Remembers

/-- An aggregation without a part in concurrency control accepts a tuple of data: it sends the
results of the windows that the tuple completes, up to the first that fails. -/
theorem Aggregation.accept_of_shows {aggregation : Aggregation} {window : Window}
    {taken : List Tuple} (settled : aggregation.pendingCommit = false)
    (shows : aggregation.synopsis.Shows window (dataOf taken).reverse)
    (function : AggregateFunction) (schema : Schema) {tuple : Tuple}
    (data : tuple.isEndOfStream = false) :
    Remembers (taken ++ [tuple]) (.aggregate window function)
        (.aggregate (aggregation.accept function schema .none tuple).1) ∧
      (aggregation.accept function schema .none tuple).2.1 =
        function.response window schema taken tuple := by
  have history_eq : (dataOf (taken ++ [tuple])).reverse = tuple :: (dataOf taken).reverse := by
    rw [dataOf_append, dataOf_cons_of_data data, List.reverse_append]
    rfl
  obtain ⟨later, reported⟩ := shows.enqueue tuple
  refine ⟨.aggregate function ?_ (history_eq ▸ later), ?_⟩
  · have unopened := opensCommit_of_undeferred CommitRole.none_defersClose
    exact Bool.or_eq_false_iff.mpr ⟨settled, unopened _⟩
  · rw [AggregateFunction.response, if_neg (by simp [data]), ← reported,
      ← function.results_ofWindows]
    rfl

namespace World

variable {world middle : World} {header : OperatorHeader} {logic : SingleLogic}
  {input : QueryTree} {taken rest : List Tuple} {memory : Memory} {tuple : Tuple}

/-- After it has taken a tuple, a selection counts it, and sends it unless it fails. -/
theorem Sends.select {seen passed : Nat}
    (takes : Sends header.id [input.id] [] (.select seen passed) world middle)
    (apart : header.id ∉ [input.id]) (condition : Condition) (tuple : Tuple) :
    ∃ passedLater, Sends header.id [input.id] ((selectTuple condition tuple).toOption.getD [])
      (.select (seen + 1) passedLater) world
      (middle.act header (·.select header.name condition tuple)).1 := by
  obtain ⟨step, delivers, _⟩ := Cell.deliver_spec (selectTuple condition tuple)
  have selects (cell : Cell) (memory_eq : cell.memory = .select seen passed) :
      cell.select header.name condition tuple =
        ({ cell with
          memory := .select (seen + 1)
            (passed + ((selectTuple condition tuple).toOption.getD []).length) }).deliver
          (selectTuple condition tuple) := by
    simp only [Cell.select, memory_eq]
    cases selectTuple condition tuple <;> rfl
  have acts (cell : Cell) (memory_eq : cell.memory = .select seen passed) :=
    selects cell memory_eq ▸ delivers _
  exact ⟨_, (takes.act apart _ acts).1⟩

/-! ## Evaluations -/

/-- What an operator does without control when a tuple waits for it: it sends the response. -/
def Responds (world : World) (header : OperatorHeader) (logic : SingleLogic) (input : QueryTree)
    (taken : List Tuple) (tuple : Tuple) (after : World) : Prop :=
  ∃ later, Remembers (taken ++ [tuple]) logic later ∧
    Sends header.id [input.id] (logic.respond world.catalog.relations header.schema taken tuple)
      later world after ∧
    after.catalog = world.catalog

/-- Without control an operator responds to the tuple that waits for it. -/
theorem responds_evaluate (remembers : Remembers taken logic memory)
    (remembered : world.memory? header.id = some memory) (different : input.id ≠ header.id)
    (uncontrolled : world.catalog.access.mode = .uncontrolled)
    (waits : (world.output input.id).queue = tuple :: rest) :
    world.Responds header logic input taken tuple
      (world.evaluate .none (.single header logic input)).1 := by
  have closed := remembers.hasPendingCommit remembered
  by_cases marks : tuple.isEndOfStream = true
  · obtain ⟨sends, _, catalog_eq⟩ :=
      evaluate_single_of_marker .none logic remembered closed different waits marks
    exact ⟨memory, remembers.append_marker marks,
      by rwa [SingleLogic.respond_of_marker _ _ _ _ marks], catalog_eq⟩
  have data : tuple.isEndOfStream = false := by simpa using marks
  obtain ⟨middle, takes, catalog_eq, evaluated⟩ :=
    exists_taken .none logic remembered closed different waits
  rw [if_neg marks] at evaluated
  have apart : header.id ∉ [input.id] := by simpa using different.symm
  cases remembers with
  | select condition seen passed =>
      obtain ⟨passedLater, sends⟩ := takes.select apart condition tuple
      rw [evaluated]
      exact ⟨_, .select condition _ passedLater,
        by rwa [SingleLogic.respond_select _ _ _ _ data], (act_catalog _ _ _).trans catalog_eq⟩
  | project indices =>
      rw [evaluated]
      refine ⟨_, .project indices, ?_, (act_catalog _ _ _).trans catalog_eq⟩
      rw [SingleLogic.respond_project _ _ _ _ data]
      exact (takes.deliver apart _).1
  | combine reference condition =>
      refine ⟨_, .combine reference condition, ?_⟩
      rw [evaluated, process, SingleLogic.respond, expansion, if_neg marks, catalog_eq]
      cases found : world.catalog.relations[reference.place]? with
      | none => exact ⟨takes, catalog_eq⟩
      | some relation =>
          have read : world.catalog.readRelation reference.place relation =
              (relation.snapshot, world.catalog) := by
            rw [Catalog.readRelation, uncontrolled]
          have reading : Sends header.id [input.id] [] .stateless world
              { middle with catalog := world.catalog } := takes.of_cells_eq rfl
          simp only [read]
          exact ⟨(reading.deliver apart _).1, act_catalog _ _ _⟩
  | @aggregate window function aggregation settled shows =>
      obtain ⟨sends, _, catalog_eq⟩ :=
        evaluate_aggregate .none window function remembered settled different waits data
      obtain ⟨remembers_later, response_eq⟩ :=
        Aggregation.accept_of_shows settled shows function header.schema data
      exact ⟨_, remembers_later, by rwa [SingleLogic.respond, ← response_eq], catalog_eq⟩

end World

end StreamQuery
