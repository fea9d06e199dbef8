import StreamQuery.Proofs.Operator.Soundness

/-!
# Typed cells

A cell is typed if its output carries tuples of the schema of its operator, and what it remembers
are tuples of the schemas of the inputs. Whatever an operator does with tuples that fit leaves its
cell typed and fails only by a comparison of values of different types.
-/

namespace StreamQuery

/-! ## Channels of a schema -/

/-- A channel whose tuples, waiting or in the backup, are those of a schema. -/
structure Channel.Conforms (channel : Channel) (schema : Schema) : Prop where
  /-- The waiting tuples. -/
  queue : ∀ tuple ∈ channel.queue, tuple.Conforms schema
  /-- The tuples that can be delivered again. -/
  backup : ∀ tuple ∈ channel.backup, tuple.Conforms schema

namespace Channel.Conforms

variable {channel : Channel} {schema : Schema}

theorem empty (schema : Schema) : ({} : Channel).Conforms schema where
  queue := by simp
  backup := by simp

theorem enqueueAll (conforms : channel.Conforms schema) {tuples : List Tuple}
    (conform : ∀ tuple ∈ tuples, tuple.Conforms schema) :
    (channel.enqueueAll tuples).Conforms schema := by
  refine ⟨fun tuple member => ?_, fun tuple member => ?_⟩
  · rw [enqueueAll_queue] at member
    exact (List.mem_append.mp member).elim (conforms.queue tuple) (conform tuple)
  · rw [enqueueAll_backup] at member
    split at member
    · exact (List.mem_append.mp member).elim (conforms.backup tuple) (conform tuple)
    · exact conforms.backup tuple member

theorem of_shrinks (conforms : channel.Conforms schema) {after : Channel}
    (shrinks : channel.Shrinks after) : after.Conforms schema where
  queue tuple member :=
    (shrinks.queue tuple member).elim (conforms.queue tuple) (conforms.backup tuple)
  backup tuple member := conforms.backup tuple (shrinks.backup tuple member)

end Channel.Conforms

/-! ## Typed cells -/

/-- What an operator remembers is of the kind of the operator, and consists of tuples of the schemas
of its inputs. -/
def Memory.IsTyped : QueryTree → Memory → Prop
  | .source header, .source arrivals => arrivals.Conforms header.schema
  | .single _ (.select _) _, .select _ _ => True
  | .single _ (.project _) _, .stateless => True
  | .single _ (.combine _ _) _, .stateless => True
  | .single _ (.aggregate _ _) input, .aggregate aggregation =>
    ∀ tuple ∈ aggregation.synopsis.held, tuple.Fits input.schema
  | .join _ _ left right, .join state =>
    (∀ tuple ∈ state.left.synopsis.held, tuple.Fits left.schema) ∧
      ∀ tuple ∈ state.right.synopsis.held, tuple.Fits right.schema
  | _, _ => False

theorem Memory.isTyped_initial (operator : QueryTree) : (initial operator).IsTyped operator := by
  rcases operator with header | ⟨header, _ | _ | _ | _, input⟩ | _
  case source => exact .empty header.schema
  all_goals simp [initial, IsTyped, Synopsis.held_ofWindow]

theorem Memory.IsTyped.reset {operator : QueryTree} {memory : Memory}
    (typed : memory.IsTyped operator) : memory.reset.IsTyped operator := by
  rcases operator with header | ⟨header, _ | _ | _ | _, input⟩ | _ <;> cases memory
  case single.aggregate.aggregate =>
    simp [Memory.reset, Aggregation.reset, IsTyped, Synopsis.held_reset]
  case join.join =>
    simp [Memory.reset, WindowJoin.reset, JoinSide.reset, IsTyped, Synopsis.held_reset]
  all_goals exact typed

namespace Memory.IsTyped

variable {memory : Memory} {header : OperatorHeader} {input left right : QueryTree}

theorem exists_arrivals (typed : memory.IsTyped (.source header)) :
    ∃ arrivals, memory = .source arrivals ∧ arrivals.Conforms header.schema := by
  cases memory with
  | source arrivals => exact ⟨arrivals, rfl, typed⟩
  | _ => exact typed.elim

theorem exists_counts {condition : Condition}
    (typed : memory.IsTyped (.single header (.select condition) input)) :
    ∃ seen passed, memory = .select seen passed := by
  cases memory with
  | select seen passed => exact ⟨seen, passed, rfl⟩
  | _ => exact typed.elim

theorem exists_aggregation {window : Window} {function : AggregateFunction}
    (typed : memory.IsTyped (.single header (.aggregate window function) input)) :
    ∃ aggregation, memory = .aggregate aggregation ∧
      ∀ tuple ∈ aggregation.synopsis.held, tuple.Fits input.schema := by
  cases memory with
  | aggregate aggregation => exact ⟨aggregation, rfl, typed⟩
  | _ => exact typed.elim

theorem exists_join {logic : JoinLogic} (typed : memory.IsTyped (.join header logic left right)) :
    ∃ state, memory = .join state ∧
      (∀ tuple ∈ state.left.synopsis.held, tuple.Fits left.schema) ∧
      ∀ tuple ∈ state.right.synopsis.held, tuple.Fits right.schema := by
  cases memory with
  | join state => exact ⟨state, rfl, typed⟩
  | _ => exact typed.elim

end Memory.IsTyped

namespace Cell

/-- A cell that carries and remembers tuples of the schemas of its operator. -/
structure IsTyped (operator : QueryTree) (cell : Cell) : Prop where
  /-- The results. -/
  output : cell.output.Conforms operator.schema
  /-- What is remembered of the inputs. -/
  memory : cell.memory.IsTyped operator

namespace IsTyped

variable {operator : QueryTree} {cell : Cell}

theorem of_shrinks (typed : cell.IsTyped operator) {output : Channel}
    (shrinks : cell.output.Shrinks output) : ({ cell with output }).IsTyped operator where
  output := typed.output.of_shrinks shrinks
  memory := typed.memory

theorem restart (typed : cell.IsTyped operator) (keepsOutput : Bool) :
    (cell.restart keepsOutput).IsTyped operator where
  output := by
    cases keepsOutput with
    | true => exact typed.output
    | false => exact typed.output.of_shrinks (Channel.shrinks_clear _)
  memory := typed.memory.reset

theorem remember (typed : cell.IsTyped operator) (memory : Memory)
    (remembered : memory.IsTyped operator) : ({ cell with memory }).IsTyped operator :=
  ⟨typed.output, remembered⟩

theorem consume (typed : cell.IsTyped operator) (count : Nat) :
    (cell.consume count).IsTyped operator :=
  ⟨typed.output, typed.memory⟩

theorem send (typed : cell.IsTyped operator) {tuples : List Tuple}
    (conform : ∀ tuple ∈ tuples, tuple.Conforms operator.schema) :
    (cell.send tuples).IsTyped operator :=
  ⟨typed.output.enqueueAll conform, typed.memory⟩

theorem closeCommit (typed : cell.IsTyped operator) : cell.closeCommit.IsTyped operator := by
  rw [Cell.closeCommit]
  split
  · rename_i aggregation memory_eq
    have memory := memory_eq ▸ typed.memory
    refine ⟨typed.output, ?_⟩
    rcases operator with _ | ⟨_, _ | _ | _ | _, _⟩ | _ <;> exact memory
  · exact typed

end IsTyped

end Cell

/-! ## What operators do -/

/-- An evaluation goes well if it leaves something typed behind and fails only by a comparison of
values of different types. -/
structure GoesWell {α : Type} (typed : α → Prop) (outcome : α × Except OperatorError Step) :
    Prop where
  /-- What is left behind is typed. -/
  typed : typed outcome.1
  /-- Failures are comparisons. -/
  error : ∀ error, outcome.2 = .error error → error.IsComparison

theorem GoesWell.of_ok {α : Type} {typed : α → Prop} {after : α} (holds : typed after)
    (step : Step) : GoesWell typed (after, .ok step) where
  typed := holds
  error _ failed := nomatch failed

/-- The schema of one of the inputs of a join. -/
def QueryTree.sideSchema (left right : QueryTree) : Side → Schema
  | .left => left.schema
  | .right => right.schema

namespace WindowJoin

/-- The buffered tuples on both sides of a join are those of two schemas, and only markers are sent
on as they are. -/
structure Turn.IsTyped (schema : Side → Schema) (turn : Turn) : Prop where
  /-- The buffered tuples. -/
  held : ∀ side, ∀ tuple ∈ (turn.join.side side).synopsis.held, tuple.Fits (schema side)
  /-- The markers. -/
  markers : ∀ tuple ∈ turn.markers, tuple.isEndOfStream = true

namespace Turn.IsTyped

variable {schema : Side → Schema} {turn : Turn}

theorem of_join {left right : QueryTree} {state : WindowJoin}
    (held_fit : (∀ tuple ∈ state.left.synopsis.held, tuple.Fits left.schema) ∧
      ∀ tuple ∈ state.right.synopsis.held, tuple.Fits right.schema) :
    ({ join := state } : Turn).IsTyped (left.sideSchema right) := by
  refine ⟨fun side => ?_, by simp⟩
  cases side with
  | left => exact held_fit.1
  | right => exact held_fit.2

theorem receive (typed : turn.IsTyped schema) {arrival : Side × Tuple}
    (given : arrival.2.Conforms (schema arrival.1)) : (turn.receive arrival).IsTyped schema := by
  obtain ⟨side, tuple⟩ := arrival
  refine ⟨fun other held member => ?_, fun marker member => ?_⟩
  · rcases mem_held_receive member with old | ⟨data, rfl, rfl⟩
    · exact typed.held other held old
    · exact given data
  · rcases mem_markers_receive member with old | ⟨ends, rfl⟩
    · exact typed.markers marker old
    · exact ends

theorem foldl_receive (typed : turn.IsTyped schema) {arrivals : List (Side × Tuple)}
    (given : ∀ arrival ∈ arrivals, arrival.2.Conforms (schema arrival.1)) :
    (arrivals.foldl Turn.receive turn).IsTyped schema := by
  induction arrivals generalizing turn with
  | nil => exact typed
  | cons arrival arrivals induction =>
      exact induction (typed.receive (given arrival List.mem_cons_self)) fun later member =>
        given later (List.mem_cons_of_mem _ member)

theorem candidates_fit (typed : turn.IsTyped schema) {pair : Tuple × Tuple}
    (member : pair ∈ turn.join.candidates) :
    pair.1.Fits (schema .left) ∧ pair.2.Fits (schema .right) := by
  obtain ⟨left, left_mem, member⟩ := List.mem_flatMap.mp member
  obtain ⟨right, right_mem, rfl⟩ := List.mem_map.mp member
  exact ⟨typed.held .left left (Synopsis.tuples_subset_held left_mem),
    typed.held .right right (Synopsis.tuples_subset_held right_mem)⟩

/-- The joined tuples have the values of both sides. -/
theorem results_fit (typed : turn.IsTyped schema) {condition : Condition} {result_schema : Schema}
    (schema_eq : result_schema = schema .left ++ schema .right) {results : List Tuple}
    (computed : turn.results condition result_schema = .ok results) {result : Tuple}
    (member : result ∈ results) : result.Fits result_schema := by
  rw [Turn.results] at computed
  split at computed
  · rw [WindowJoin.results] at computed
    split at computed
    · split at computed
      · obtain ⟨left, right, candidate, rfl⟩ := mem_select computed member
        obtain ⟨left_fits, right_fits⟩ := typed.candidates_fit candidate
        exact pair_fits schema_eq left_fits right_fits _
      · cases computed
        cases member
    · cases computed
      cases member
  · cases computed
    cases member

theorem results_error (typed : turn.IsTyped schema) {condition : Condition} {result_schema : Schema}
    (resolved : condition.unresolvedInPair? (schema .left) (schema .right) = none)
    {error : OperatorError} (failed : turn.results condition result_schema = .error error) :
    error.IsComparison := by
  rw [Turn.results] at failed
  split at failed
  · rw [WindowJoin.results] at failed
    split at failed
    · split at failed
      · exact select_error resolved (fun _ => typed.candidates_fit) failed
      · cases failed
    · cases failed
  · cases failed

end Turn.IsTyped

end WindowJoin

namespace Cell

variable {cell : Cell} {header : OperatorHeader} {input : QueryTree} {tuple : Tuple}

theorem deliver_goesWell {operator : QueryTree} (typed : cell.IsTyped operator)
    {outcome : Except OperatorError (List Tuple)}
    (conform : ∀ results, outcome = .ok results →
      ∀ result ∈ results, result.Conforms operator.schema)
    (comparison : ∀ error, outcome = .error error → error.IsComparison) :
    GoesWell (IsTyped operator) (cell.deliver outcome) := by
  rcases outcome with error | (_ | ⟨result, results⟩)
  · exact ⟨typed, fun error failed => comparison error (by cases failed; rfl)⟩
  · exact .of_ok typed _
  · exact .of_ok (typed.send (conform _ rfl)) _

theorem passOn_goesWell (typed : cell.IsTyped (.source header)) :
    GoesWell (IsTyped (.source header)) (cell.passOn header.name) := by
  obtain ⟨arrivals, memory_eq, arrived⟩ := typed.memory.exists_arrivals
  simp only [passOn, memory_eq]
  split
  · exact .of_ok typed _
  · rename_i oldest rest dequeued
    obtain ⟨queue_eq, rest_eq⟩ := Channel.dequeue?_eq_some dequeued
    have remains : rest.Conforms header.schema := by
      refine ⟨fun tuple member => arrived.queue tuple ?_, fun tuple member => ?_⟩
      · exact queue_eq ▸ List.mem_cons_of_mem oldest member
      · rw [rest_eq] at member
        exact arrived.backup tuple member
    have oldest_conforms := arrived.queue oldest (queue_eq ▸ List.mem_cons_self)
    refine .of_ok (((typed.remember (.source rest) remains).consume 1).send
      fun tuple member => ?_) _
    exact List.mem_singleton.mp member ▸ oldest_conforms

theorem select_goesWell {condition : Condition} {relations : List RelationDeclaration}
    (resolved : (QueryTree.single header (.select condition) input).IsResolved relations)
    (fits : tuple.Fits input.schema)
    (typed : cell.IsTyped (.single header (.select condition) input)) :
    GoesWell (IsTyped (.single header (.select condition) input))
      (cell.select header.name condition tuple) := by
  obtain ⟨seen, passed, memory_eq⟩ := typed.memory.exists_counts
  obtain ⟨resolved, schema_eq⟩ := resolved
  simp only [select, memory_eq]
  refine deliver_goesWell (typed.remember (.select _ _) trivial)
    (fun results selected result member _ => ?_)
    fun error => selectTuple_error resolved fits
  obtain ⟨passes, _, rfl⟩ := map_eq_ok.mp selected
  cases passes with
  | false => cases member
  | true =>
      obtain rfl := List.mem_singleton.mp member
      exact fits.of_eq schema_eq

theorem project_goesWell {indices : List Nat} {relations : List RelationDeclaration}
    (resolved : (QueryTree.single header (.project indices) input).IsResolved relations)
    (fits : tuple.Fits input.schema)
    (typed : cell.IsTyped (.single header (.project indices) input)) :
    GoesWell (IsTyped (.single header (.project indices) input))
      (cell.deliver ((projectTuple indices header.schema tuple).map ([·]))) := by
  obtain ⟨known, schema_eq⟩ := resolved
  obtain ⟨result, projected, result_fits⟩ := projectTuple_of_fits fits known schema_eq
  rw [projected]
  refine deliver_goesWell typed (fun results results_eq other member _ => ?_) (by simp [Except.map])
  cases results_eq
  exact List.mem_singleton.mp member ▸ result_fits

theorem combine_goesWell {reference : RelationReference} {condition : Condition}
    {relations : List RelationDeclaration} {declared : RelationDeclaration}
    (resolved : (QueryTree.single header (.combine reference condition) input).IsResolved relations)
    (found : relations[reference.place]? = some declared) (fits : tuple.Fits input.schema)
    {snapshot : Snapshot} (rows_fit : ∀ row ∈ snapshot.rows, row.Fits declared.schema)
    (relation : RelationId)
    (typed : cell.IsTyped (.single header (.combine reference condition) input)) :
    GoesWell (IsTyped (.single header (.combine reference condition) input))
      (cell.deliver (matchSnapshot condition header.schema relation snapshot tuple)) := by
  obtain ⟨declared', found', resolved, schema_eq⟩ := resolved
  obtain rfl := Option.some.inj (found.symm.trans found')
  have entries_fit : ∀ entry ∈ snapshot.rows.zipIdx, entry.1.Fits declared.schema :=
    fun entry member => rows_fit entry.1 (List.fst_mem_of_mem_zipIdx member)
  refine deliver_goesWell typed (fun results matched result member _ => ?_)
    fun error => matchRows_error resolved fits entries_fit
  obtain ⟨⟨row, position⟩, entry_mem, rfl⟩ := mem_matchRows matched member
  exact matchTuple_fits schema_eq fits (entries_fit _ entry_mem) relation snapshot.version position

theorem aggregate_goesWell {window : Window} {function : AggregateFunction}
    {relations : List RelationDeclaration} (role : CommitRole)
    (resolved : (QueryTree.single header (.aggregate window function) input).IsResolved relations)
    (fits : tuple.Fits input.schema)
    (typed : cell.IsTyped (.single header (.aggregate window function) input)) :
    GoesWell (IsTyped (.single header (.aggregate window function) input))
      (cell.aggregate header function role tuple) := by
  obtain ⟨aggregation, memory_eq, held_fit⟩ := typed.memory.exists_aggregation
  have fits_of {other : Tuple} (member : other ∈ aggregation.synopsis.held ∨ other = tuple) :
      other.Fits input.schema :=
    member.elim (held_fit other) fun same => same ▸ fits
  have succeeds : ∀ contents ∈ (aggregation.synopsis.enqueue tuple).2,
      ∃ result, function.apply header.schema contents = .ok result ∧
        result.Fits header.schema :=
    fun contents reported => AggregateFunction.apply_of_fits resolved
      (fun other inside => fits_of (Synopsis.mem_enqueue_window reported inside))
      (Synopsis.tuples_ne_nil_of_mem_enqueue reported)
  have unfailed := Evaluation.ne_failed_of_forall role.checksConsistency
    fun contents reported => (succeeds contents reported).imp fun _ => And.left
  have remembered := typed.remember
    (.aggregate (aggregation.accept function header.schema role tuple).1)
    fun other member => fits_of (Synopsis.mem_enqueue_held member)
  have results_conform : ∀ result ∈ (aggregation.accept function header.schema role tuple).2.1,
      result.Conforms header.schema := by
    intro result member _
    obtain ⟨contents, reported, computed, _⟩ := Evaluation.mem_results member
    obtain ⟨result', computed', result_fits⟩ := succeeds contents reported
    cases computed.symm.trans computed'
    exact result_fits
  simp only [aggregate, memory_eq]
  split
  · exact .of_ok (remembered.send results_conform) _
  · rename_i error failed
    exact absurd failed (Aggregation.stepOf_ne_error unfailed error)

theorem joinArrivals_goesWell {logic : JoinLogic} {left right : QueryTree}
    {relations : List RelationDeclaration}
    (resolved : (QueryTree.join header logic left right).IsResolved relations)
    {arrivals : List (Side × Tuple)}
    (given : ∀ arrival ∈ arrivals, arrival.2.Conforms (left.sideSchema right arrival.1))
    (typed : cell.IsTyped (.join header logic left right)) :
    GoesWell (IsTyped (.join header logic left right))
      (cell.joinArrivals header logic.condition arrivals) := by
  obtain ⟨state, memory_eq, held_fit⟩ := typed.memory.exists_join
  obtain ⟨resolved, schema_eq⟩ := resolved
  have received := (WindowJoin.Turn.IsTyped.of_join held_fit).foldl_receive given
  simp only [joinArrivals, memory_eq]
  generalize arrivals.foldl WindowJoin.Turn.receive { join := state } = turn at received
  have remembered := (typed.remember (.join turn.join)
    ⟨received.held .left, received.held .right⟩).consume arrivals.length
  have markers_conform : ∀ marker ∈ turn.markers, marker.Conforms header.schema :=
    fun marker member data => by cases (received.markers marker member).symm.trans data
  split
  · rename_i results computed
    refine deliver_goesWell remembered (fun sent sent_eq result member => ?_) (by simp)
    cases sent_eq
    rcases List.mem_append.mp member with is_marker | joined
    · exact markers_conform result is_marker
    · exact fun _ => received.results_fit schema_eq computed joined
  · rename_i error failed
    refine ⟨⟨remembered.output.enqueueAll markers_conform, remembered.memory⟩, ?_⟩
    intro error' error_eq
    cases error_eq
    exact received.results_error resolved failed

end Cell

end StreamQuery
