import StreamQuery.Proofs.Engine.Ends

/-!
# What evaluations do

The exact effect of one evaluation of each kind of operator: what it takes, what it sends and what
it remembers. Everything else stays as it is.
-/

namespace StreamQuery

/-- Delivery sends the results unless they fail, and changes nothing that is remembered. -/
theorem Cell.deliver_spec (outcome : Except OperatorError (List Tuple)) :
    ∃ step : Except OperatorError Step,
      (∀ cell : Cell,
        (cell.deliver outcome).1.output = cell.output.enqueueAll (outcome.toOption.getD []) ∧
          (cell.deliver outcome).1.memory = cell.memory ∧ (cell.deliver outcome).2 = step) ∧
        ∀ results, outcome = .ok results → ∃ reported, step = .ok reported ∧
          reported.isSignal = false := by
  rcases outcome with error | _ | ⟨first, results⟩
  · exact ⟨.error error, fun _ => ⟨rfl, rfl, rfl⟩, by simp⟩
  · exact ⟨.ok .noOutput, fun _ => ⟨rfl, rfl, rfl⟩, fun _ _ => ⟨_, rfl, rfl⟩⟩
  · exact ⟨.ok (.emitted (first :: results).length), fun _ => ⟨rfl, rfl, rfl⟩,
      fun _ _ => ⟨_, rfl, rfl⟩⟩

namespace World

/-- An operator that takes the oldest tuples of some inputs, sends results and remembers something.
-/
structure Sends (own : Nat) (taken : List Nat) (results : List Tuple) (memory : Memory)
    (before after : World) : Prop where
  /-- The results are sent. -/
  self : after.output own = (before.output own).enqueueAll results
  /-- The operator remembers what is given. -/
  memory : after.memory? own = some memory
  /-- The oldest tuple is taken from each input that has one. -/
  inputs : ∀ id ∈ taken,
    after.output id = { before.output id with queue := (before.output id).queue.tail }
  /-- Nothing happens to the other outputs. -/
  others : ∀ id, id ≠ own → id ∉ taken → after.output id = before.output id
  /-- Others remember what they did. -/
  memories : ∀ id, id ≠ own → after.memory? id = before.memory? id

namespace Sends

variable {own : Nat} {taken : List Nat} {results : List Tuple} {memory later : Memory}
  {before middle after : World}

theorem refl (remembered : before.memory? own = some memory) :
    Sends own [] [] memory before before where
  self := rfl
  memory := remembered
  inputs := by simp
  others _ _ _ := rfl
  memories _ _ := rfl

/-- One more input is taken from. -/
theorem take (earlier : Sends own taken [] memory before middle) {id : Nat} (different : id ≠ own)
    (fresh : id ∉ taken) : Sends own (taken ++ [id]) [] memory before (middle.take id).2 where
  self := (output_take_of_ne _ different.symm).trans earlier.self
  memory := (memory?_take _ _ _).trans earlier.memory
  inputs other member := by
    rcases List.mem_append.mp member with before_it | is_id
    · have apart : other ≠ id := fun same => fresh (same ▸ before_it)
      rw [output_take_of_ne _ apart, earlier.inputs other before_it]
    · obtain rfl := List.mem_singleton.mp is_id
      rw [output_take_self, earlier.others other different fresh]
  others other other_ne absent := by
    rw [List.mem_append, List.mem_singleton, not_or] at absent
    rw [output_take_of_ne _ absent.2, earlier.others other other_ne absent.1]
  memories other other_ne := (memory?_take _ _ _).trans (earlier.memories other other_ne)

theorem exists_cell (earlier : Sends own taken results memory before middle) :
    ∃ cell, middle.cells[own]? = some cell ∧ cell.memory = memory :=
  Option.map_eq_some_iff.mp earlier.memory

/-- After it has taken tuples, the operator changes its own cell. -/
theorem modifyCell (earlier : Sends own taken [] memory before middle) (apart : own ∉ taken)
    {cell : Cell} (found : middle.cells[own]? = some cell) {change : Cell → Cell}
    (output_eq : (change cell).output = cell.output.enqueueAll results)
    (later_eq : (change cell).memory = later) :
    Sends own taken results later before (middle.modifyCell own change) := by
  have ne_own {id : Nat} (member : id ∈ taken) : id ≠ own := fun same => apart (same ▸ member)
  refine ⟨?_, ?_, fun id member => ?_, fun id different absent => ?_, fun id different => ?_⟩
  · rw [output_modifyCell_self found, output_eq, ← output_of_getElem? found, earlier.self]
    rfl
  · rw [memory?_modifyCell_self found, later_eq]
  · rw [output_modifyCell_of_ne _ (ne_own member), earlier.inputs id member]
  · rw [output_modifyCell_of_ne _ different, earlier.others id different absent]
  · rw [memory?_modifyCell_of_ne _ different, earlier.memories id different]

/-- After it has taken tuples, the operator acts. -/
theorem act {header : OperatorHeader} (earlier : Sends header.id taken [] memory before middle)
    (apart : header.id ∉ taken) (action : Cell → Cell × Except OperatorError Step)
    {step : Except OperatorError Step}
    (acts : ∀ cell : Cell, cell.memory = memory →
      (action cell).1.output = cell.output.enqueueAll results ∧ (action cell).1.memory = later ∧
        (action cell).2 = step) :
    Sends header.id taken results later before (middle.act header action).1 ∧
      (middle.act header action).2 = step := by
  obtain ⟨cell, found, memory_eq⟩ := earlier.exists_cell
  obtain ⟨output_eq, later_eq, step_eq⟩ := acts cell memory_eq
  rw [act_of_getElem? found]
  exact ⟨earlier.modifyCell apart found output_eq later_eq, step_eq⟩

/-- After it has taken tuples, an operator sends its results unless they fail. -/
theorem deliver {header : OperatorHeader} (earlier : Sends header.id taken [] memory before middle)
    (apart : header.id ∉ taken) (outcome : Except OperatorError (List Tuple)) :
    Sends header.id taken (outcome.toOption.getD []) memory before
        (middle.act header (·.deliver outcome)).1 ∧
      ∀ results, outcome = .ok results → ∃ step,
        (middle.act header (·.deliver outcome)).2 = .ok step ∧ step.isSignal = false := by
  obtain ⟨step, delivers, quiet⟩ := Cell.deliver_spec outcome
  obtain ⟨sends, step_eq⟩ := earlier.act apart (·.deliver outcome) fun cell memory_eq =>
    ⟨(delivers cell).1, (delivers cell).2.1.trans memory_eq, (delivers cell).2.2⟩
  exact ⟨sends, step_eq.symm ▸ quiet⟩

theorem of_cells_eq (sends : Sends own taken results memory before middle)
    (cells_eq : after.cells = middle.cells) : Sends own taken results memory before after := by
  have output_eq (id : Nat) : after.output id = middle.output id := by
    rw [output, output, cells_eq]
  have memory_eq (id : Nat) : after.memory? id = middle.memory? id := by
    rw [memory?, memory?, cells_eq]
  exact ⟨(output_eq _).trans sends.self, (memory_eq _).trans sends.memory,
    fun id member => (output_eq id).trans (sends.inputs id member),
    fun id different absent => (output_eq id).trans (sends.others id different absent),
    fun id different => (memory_eq id).trans (sends.memories id different)⟩

theorem sent (sends : Sends own taken results memory before after) :
    (after.output own).queue.drop (before.output own).queue.length = results := by
  rw [sends.self, Channel.enqueueAll_queue, List.drop_left]

end Sends

variable {world : World} (role : CommitRole) {header : OperatorHeader}

/-! ## Sources -/

theorem evaluate_source_of_nil {arrivals : Channel}
    (remembered : world.memory? header.id = some (.source arrivals))
    (empty : arrivals.queue = []) :
    world.evaluate role (.source header) = (world, .ok .idle) := by
  obtain ⟨cell, found, memory_eq⟩ := Option.map_eq_some_iff.mp remembered
  have passes : cell.passOn header.name = (cell, .ok .idle) := by
    simp [Cell.passOn, memory_eq, Channel.dequeue?, empty]
  rw [evaluate, act_of_getElem? found, passes, modifyCell_const_self found]

/-- A source passes its oldest arrival on. -/
theorem evaluate_source_of_cons {arrivals : Channel} {tuple : Tuple} {rest : List Tuple}
    (remembered : world.memory? header.id = some (.source arrivals))
    (waits : arrivals.queue = tuple :: rest) :
    Sends header.id [] [tuple] (.source { arrivals with queue := rest }) world
        (world.evaluate role (.source header)).1 ∧
      (world.evaluate role (.source header)).2 = .ok (.emitted 1) := by
  refine (Sends.refl remembered).act (by simp) (·.passOn header.name) fun cell memory_eq => ?_
  simp only [Cell.passOn, memory_eq, Channel.dequeue?, waits]
  exact ⟨rfl, rfl, trivial⟩

/-! ## Operators with one input -/

section

variable (logic : SingleLogic) {input : QueryTree} {memory : Memory} {tuple : Tuple}
  {rest : List Tuple}

/-- An operator takes a tuple before it acts. -/
theorem exists_taken (remembered : world.memory? header.id = some memory)
    (settled : world.hasPendingCommit header.id = false) (different : input.id ≠ header.id)
    (waits : (world.output input.id).queue = tuple :: rest) :
    ∃ taken, Sends header.id [input.id] [] memory world taken ∧ taken.catalog = world.catalog ∧
      world.evaluate role (.single header logic input) =
        if tuple.isEndOfStream then
          taken.act header (·.deliver (.ok [tuple]))
        else
          taken.process role header logic tuple := by
  have takes := (Sends.refl remembered).take different List.not_mem_nil
  obtain ⟨cell, found, memory_eq⟩ := takes.exists_cell
  have consumed : Sends header.id [input.id] [] memory world
      ((world.take input.id).2.modifyCell header.id (·.consume 1)) :=
    takes.modifyCell (by simpa using different.symm) found rfl memory_eq
  refine ⟨_, consumed, take_catalog _ _, ?_⟩
  have taken : world.take input.id = (some tuple, (world.take input.id).2) :=
    Prod.ext (by rw [take_fst, waits, List.head?_cons]) rfl
  rw [evaluate, evaluateSingle, if_neg (by simp [settled]), taken]

/-- A marker is sent on. -/
theorem evaluate_single_of_marker (remembered : world.memory? header.id = some memory)
    (settled : world.hasPendingCommit header.id = false) (different : input.id ≠ header.id)
    (waits : (world.output input.id).queue = tuple :: rest)
    (marks : tuple.isEndOfStream = true) :
    Sends header.id [input.id] [tuple] memory world
        (world.evaluate role (.single header logic input)).1 ∧
      (world.evaluate role (.single header logic input)).2 = .ok (.emitted 1) ∧
      (world.evaluate role (.single header logic input)).1.catalog = world.catalog := by
  obtain ⟨taken, takes, catalog_eq, evaluated⟩ :=
    exists_taken role logic remembered settled different waits
  obtain ⟨sends, step_eq⟩ := takes.act (by simpa using different.symm)
    (·.deliver (.ok [tuple])) fun cell memory_eq => ⟨rfl, memory_eq, rfl⟩
  rw [evaluated, if_pos marks]
  exact ⟨sends, step_eq, (act_catalog _ _ _).trans catalog_eq⟩

/-- What a tuple is matched with is sent on. -/
theorem evaluate_combine {reference : RelationReference} {condition : Condition}
    (remembered : world.memory? header.id = some memory)
    (settled : world.hasPendingCommit header.id = false) (different : input.id ≠ header.id)
    (waits : (world.output input.id).queue = tuple :: rest)
    (data : tuple.isEndOfStream = false) {relation : Relation}
    (found : world.catalog.relations[reference.place]? = some relation) {snapshot : Snapshot}
    {catalog : Catalog}
    (read : world.catalog.readRelation reference.place relation = (snapshot, catalog))
    {results : List Tuple}
    (matched : matchSnapshot condition header.schema relation.id snapshot tuple = .ok results) :
    Sends header.id [input.id] results memory world
        (world.evaluate role (.single header (.combine reference condition) input)).1 ∧
      (∃ step, (world.evaluate role (.single header (.combine reference condition) input)).2 =
        .ok step ∧ step.isSignal = false) ∧
      (world.evaluate role (.single header (.combine reference condition) input)).1.catalog =
        catalog := by
  obtain ⟨taken, takes, catalog_eq, evaluated⟩ := exists_taken role
    (.combine reference condition) remembered settled different waits
  have reading : Sends header.id [input.id] [] memory world { taken with catalog } :=
    takes.of_cells_eq rfl
  have processed : world.evaluate role (.single header (.combine reference condition) input) =
      ({ taken with catalog }).act header (·.deliver (.ok results)) := by
    rw [evaluated, if_neg (by simp [data]), process]
    simp only [catalog_eq, found, read, matched]
  obtain ⟨sends, delivered⟩ := reading.deliver (by simpa using different.symm) (.ok results)
  rw [processed]
  exact ⟨sends, delivered results rfl, act_catalog _ _ _⟩

/-! ## Aggregations -/

variable {aggregation : Aggregation} (window : Window) (function : AggregateFunction)

theorem hasPendingCommit_of_memory?
    (remembered : world.memory? header.id = some (.aggregate aggregation)) :
    world.hasPendingCommit header.id = aggregation.pendingCommit := by
  rw [hasPendingCommit_eq, remembered]
  rfl

theorem evaluate_single_of_nil (empty : (world.output input.id).queue = []) :
    world.evaluate role (.single header logic input) = (world, .ok .idle) :=
  evaluateSingle_of_nil empty

variable (input) in
/-- An open commit is closed when a tuple waits. -/
theorem evaluate_aggregate_of_open
    (remembered : world.memory? header.id = some (.aggregate aggregation))
    (opened : aggregation.pendingCommit = true)
    (waits : (world.output input.id).queue = tuple :: rest) :
    Sends header.id [] [] (.aggregate { aggregation with pendingCommit := false }) world
        (world.evaluate role (.single header (.aggregate window function) input)).1 ∧
      (world.evaluate role (.single header (.aggregate window function) input)).2 =
        .ok (.pendingAbort tuple.lowWater) ∧
      (world.evaluate role (.single header (.aggregate window function) input)).1.catalog =
        world.catalog := by
  rw [evaluate, evaluateSingle_of_open waits
    ((hasPendingCommit_of_memory? remembered).trans opened)]
  obtain ⟨cell, found, memory_eq⟩ := Option.map_eq_some_iff.mp remembered
  have closed : cell.closeCommit =
      { cell with memory := .aggregate { aggregation with pendingCommit := false } } := by
    simp only [Cell.closeCommit, memory_eq]
  refine ⟨(Sends.refl remembered).modifyCell (by simp) found ?_ ?_, rfl, rfl⟩
  · rw [closed]
    rfl
  · rw [closed]

/-- The results of the windows that a tuple completes are sent. -/
theorem evaluate_aggregate (remembered : world.memory? header.id = some (.aggregate aggregation))
    (settled : aggregation.pendingCommit = false) (different : input.id ≠ header.id)
    (waits : (world.output input.id).queue = tuple :: rest)
    (data : tuple.isEndOfStream = false) :
    Sends header.id [input.id] (aggregation.accept function header.schema role tuple).2.1
        (.aggregate (aggregation.accept function header.schema role tuple).1) world
        (world.evaluate role (.single header (.aggregate window function) input)).1 ∧
      (world.evaluate role (.single header (.aggregate window function) input)).2 =
        (aggregation.accept function header.schema role tuple).2.2 ∧
      (world.evaluate role (.single header (.aggregate window function) input)).1.catalog =
        world.catalog := by
  obtain ⟨taken, takes, catalog_eq, evaluated⟩ := exists_taken role
    (.aggregate window function) remembered
    ((hasPendingCommit_of_memory? remembered).trans settled) different waits
  rw [evaluated, if_neg (by simp [data]), process]
  have accepts (cell : Cell) (memory_eq : cell.memory = .aggregate aggregation) :
      (cell.aggregate header function role tuple).1.output =
          cell.output.enqueueAll (aggregation.accept function header.schema role tuple).2.1 ∧
        (cell.aggregate header function role tuple).1.memory =
          .aggregate (aggregation.accept function header.schema role tuple).1 ∧
        (cell.aggregate header function role tuple).2 =
          (aggregation.accept function header.schema role tuple).2.2 := by
    simp only [Cell.aggregate, memory_eq]
    rcases aggregation.accept function header.schema role tuple with ⟨after, results, _ | step⟩
    · exact ⟨rfl, rfl, rfl⟩
    · exact ⟨rfl, rfl, rfl⟩
  obtain ⟨sends, step_eq⟩ := takes.act (by simpa using different.symm)
    (·.aggregate header function role tuple) accepts
  exact ⟨sends, step_eq, (act_catalog _ _ _).trans catalog_eq⟩

/-- Nothing is completed unless a tuple of data waits. -/
theorem completedWindows_of_no_data {logic : SingleLogic} {input : QueryTree}
    (no_data : ∀ tuple ∈ (world.output input.id).queue.head?, tuple.isEndOfStream = true) :
    world.completedWindows (.single header logic input) = [] := by
  cases logic with
  | aggregate window function =>
      rw [completedWindows, Channel.peek?]
      split
      · rfl
      · cases waits : (world.output input.id).queue.head? with
        | none => rfl
        | some tuple =>
            cases world.cells[header.id]?.bind fun cell => cell.memory.aggregation? with
            | none => rfl
            | some aggregation => exact if_pos (no_data tuple waits)
  | _ => rfl

/-- What a tuple of data completes when it is taken. -/
theorem completedWindows_of_data
    (remembered : world.memory? header.id = some (.aggregate aggregation))
    (settled : aggregation.pendingCommit = false)
    (waits : (world.output input.id).queue = tuple :: rest)
    (data : tuple.isEndOfStream = false) :
    world.completedWindows (.single header (.aggregate window function) input) =
      (aggregation.synopsis.enqueue tuple).2 := by
  have closed : world.hasPendingCommit header.id = false :=
    (hasPendingCommit_of_memory? remembered).trans settled
  obtain ⟨cell, found, memory_eq⟩ := Option.map_eq_some_iff.mp remembered
  rw [completedWindows, closed, Channel.peek?, waits, found]
  simp [memory_eq, Memory.aggregation?, data]

end

/-! ## Joins -/

/-- A join takes a tuple from each side that has one. It sends markers, and the joined tuples unless
the condition fails. -/
theorem evaluate_join (logic : JoinLogic) {left right : QueryTree} {state : WindowJoin}
    (remembered : world.memory? header.id = some (.join state)) (left_ne : left.id ≠ header.id)
    (right_ne : right.id ≠ header.id) (apart : left.id ≠ right.id) {turn : WindowJoin.Turn}
    (turn_eq : WindowJoin.Turn.ofArrivals state (world.output left.id).queue.head?
      (world.output right.id).queue.head? = turn)
    (waits : (world.output left.id).queue ≠ [] ∨ (world.output right.id).queue ≠ []) :
    Sends header.id [left.id, right.id]
        (turn.markers ++ (turn.results logic.condition header.schema).toOption.getD [])
        (.join turn.join) world (world.evaluate role (.join header logic left right)).1 ∧
      (∀ step, (world.evaluate role (.join header logic left right)).2 = .ok step →
        step.isSignal = false) ∧
      (world.evaluate role (.join header logic left right)).1.catalog = world.catalog := by
  have takes : Sends header.id [left.id, right.id] [] (.join state) world
      ((world.take left.id).2.take right.id).2 :=
    ((Sends.refl remembered).take left_ne List.not_mem_nil).take right_ne
      (by simpa using apart.symm)
  have left_fst := world.take_fst left.id
  have right_fst := (world.take left.id).2.take_fst right.id
  rw [output_take_of_ne _ apart.symm] at right_fst
  rw [WindowJoin.Turn.ofArrivals] at turn_eq
  simp only [evaluate, evaluateJoin, left_fst, right_fst, isEmpty_arrivals waits,
    Bool.false_eq_true, if_false]
  generalize ((world.output left.id).queue.head?.map (Side.left, ·)).toList ++
    ((world.output right.id).queue.head?.map (Side.right, ·)).toList = arrivals at turn_eq
  obtain ⟨step, joins, quiet⟩ := joinArrivals_spec state header logic.condition arrivals turn_eq
  have apart_own : header.id ∉ [left.id, right.id] := by
    simpa using ⟨left_ne.symm, right_ne.symm⟩
  obtain ⟨sends, step_eq⟩ :=
    takes.act apart_own (·.joinArrivals header logic.condition arrivals) joins
  refine ⟨sends, fun reported is_step => quiet reported (step_eq.symm.trans is_step), ?_⟩
  exact (act_catalog _ _ _).trans ((take_catalog _ _).trans (take_catalog _ _))

end World

end StreamQuery
