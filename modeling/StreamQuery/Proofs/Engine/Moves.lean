import StreamQuery.Engine.Trace
import StreamQuery.Proofs.Engine.World
import StreamQuery.Proofs.Operator.Yields

/-!
# Tuples that move

One evaluation takes tuples from the front of the inputs of an operator and sends results on.
Nothing else happens to any output, and nothing is remembered or forgotten by other operators.
-/

namespace StreamQuery

namespace World

/-- What an operator remembers. -/
def memory? (world : World) (id : Nat) : Option Memory :=
  world.cells[id]?.map Cell.memory

theorem memory?_of_getElem? {world : World} {id : Nat} {cell : Cell}
    (found : world.cells[id]? = some cell) : world.memory? id = some cell.memory := by
  rw [memory?, found]
  rfl

section

variable (world : World) {id other : Nat} {header : OperatorHeader}
  {action : Cell → Cell × Except OperatorError Step}

theorem output_modifyCell_of_ne (different : other ≠ id) (change : Cell → Cell) :
    (world.modifyCell id change).output other = world.output other := by
  rw [output, output, getElem?_modifyCell_of_ne _ _ different]

theorem memory?_modifyCell_of_ne (different : other ≠ id) (change : Cell → Cell) :
    (world.modifyCell id change).memory? other = world.memory? other := by
  rw [memory?, memory?, getElem?_modifyCell_of_ne _ _ different]

theorem output_act_of_ne (different : other ≠ header.id) :
    (world.act header action).1.output other = world.output other := by
  rw [act]
  split
  · exact output_modifyCell_of_ne _ different _
  · rfl

variable {world}

theorem output_modifyCell_self {cell : Cell} (found : world.cells[id]? = some cell)
    (change : Cell → Cell) : (world.modifyCell id change).output id = (change cell).output := by
  rw [output, getElem?_modifyCell_self, found]
  rfl

theorem memory?_modifyCell_self {cell : Cell} (found : world.cells[id]? = some cell)
    (change : Cell → Cell) :
    (world.modifyCell id change).memory? id = some (change cell).memory := by
  rw [memory?, getElem?_modifyCell_self, found]
  rfl

theorem memory?_act_self {cell : Cell} (found : world.cells[header.id]? = some cell) :
    (world.act header action).1.memory? header.id = some (action cell).1.memory := by
  rw [act_of_getElem? found]
  exact memory?_modifyCell_self found _

variable (world)

/-! ## Arrivals -/

section

variable (id : Nat) (change : Channel → Channel)

theorem output_modifyArrivals (other : Nat) :
    (world.modifyArrivals id change).output other = world.output other := by
  by_cases same : other = id
  · subst same
    rw [modifyArrivals, output, output, getElem?_modifyCell_self]
    cases world.cells[other]? with
    | none => rfl
    | some cell =>
        simp only [Option.map_some]
        split <;> rfl
  · exact output_modifyCell_of_ne world same _

/-- Only a source remembers arrivals. -/
theorem memory?_modifyArrivals (other : Nat) :
    (world.modifyArrivals id change).memory? other = world.memory? other ∧
        (other = id → ∀ arrivals, world.memory? other ≠ some (.source arrivals)) ∨
      other = id ∧ ∃ arrivals, world.memory? other = some (.source arrivals) ∧
        (world.modifyArrivals id change).memory? other = some (.source (change arrivals)) := by
  by_cases same : other = id
  · subst same
    rw [modifyArrivals, memory?, memory?, getElem?_modifyCell_self]
    cases world.cells[other]? with
    | none => exact .inl ⟨rfl, by simp⟩
    | some cell =>
        cases memory_eq : cell.memory with
        | source arrivals => exact .inr ⟨rfl, arrivals, by simp [memory_eq], by simp [memory_eq]⟩
        | _ => exact .inl ⟨by simp [memory_eq], by simp [memory_eq]⟩
  · exact .inl ⟨memory?_modifyCell_of_ne world same _, fun is_same => absurd is_same same⟩

theorem memory?_modifyArrivals_of_ne {other : Nat} (different : other ≠ id) :
    (world.modifyArrivals id change).memory? other = world.memory? other :=
  memory?_modifyCell_of_ne world different _

theorem memory?_modifyArrivals_self {arrivals : Channel}
    (remembered : world.memory? id = some (.source arrivals)) :
    (world.modifyArrivals id change).memory? id = some (.source (change arrivals)) := by
  rcases memory?_modifyArrivals world id change id with
    ⟨_, no_source⟩ | ⟨_, found, found_eq, changed⟩
  · exact absurd remembered (no_source rfl arrivals)
  · obtain rfl : arrivals = found := by simpa using remembered.symm.trans found_eq
    exact changed

end

/-! ## Taking -/

theorem take_fst (id : Nat) : (world.take id).1 = (world.output id).queue.head? := by
  rw [take]
  cases queue_eq : (world.output id).queue <;> simp [Channel.dequeue?, queue_eq]

theorem output_take_self (id : Nat) :
    (world.take id).2.output id =
      { world.output id with queue := (world.output id).queue.tail } := by
  cases found : world.cells[id]? with
  | none =>
      have output_eq := output_of_getElem?_eq_none found
      simp [take, output_eq, Channel.dequeue?]
  | some cell =>
      have output_eq := output_of_getElem? found
      cases queue_eq : cell.output.queue with
      | nil => rw [take_of_nil found queue_eq, output_eq, queue_eq, List.tail_nil, ← queue_eq]
      | cons tuple queue =>
          rw [take_of_cons found queue_eq, modifyOutput, output_modifyCell_self found, output_eq,
            queue_eq]
          rfl

theorem output_take_of_ne (different : other ≠ id) :
    (world.take id).2.output other = world.output other := by
  rw [take]
  split
  · exact output_modifyCell_of_ne _ different _
  · rfl

theorem memory?_take (id other : Nat) : (world.take id).2.memory? other = world.memory? other := by
  rcases taken : world.take id with ⟨_ | tuple, rest⟩
  · obtain ⟨_, rfl⟩ := take_eq_none taken
    rfl
  · obtain ⟨cell, queue, found, _, rfl⟩ := take_eq_some taken
    by_cases same : other = id
    · subst same
      rw [modifyOutput, memory?_modifyCell_self found, memory?, found]
      rfl
    · exact memory?_modifyCell_of_ne _ same _

theorem exists_cell_take {cell : Cell} (found : world.cells[id]? = some cell) (other : Nat) :
    ∃ after, (world.take other).2.cells[id]? = some after ∧ after.memory = cell.memory := by
  have memory_eq := world.memory?_take other id
  rw [memory?, memory?, found] at memory_eq
  exact Option.map_eq_some_iff.mp memory_eq

end

/-! ## Moves -/

/-- An operator sends results, and from the outputs of others tuples are taken at most. -/
structure Moves (own : Nat) (results : List Tuple) (before after : World) : Prop where
  /-- The operator sends its results. -/
  sends : after.output own = (before.output own).enqueueAll results
  /-- The front of other outputs may have been taken. -/
  keeps : ∀ id, id ≠ own → ∃ queue, queue <:+ (before.output id).queue ∧
    after.output id = { before.output id with queue }
  /-- Others remember what they did. -/
  remembers : ∀ id, id ≠ own → after.memory? id = before.memory? id

namespace Moves

variable {own : Nat} {results : List Tuple} {world before middle after : World}

theorem refl (own : Nat) (world : World) : Moves own [] world world where
  sends := rfl
  keeps id _ := ⟨(world.output id).queue, List.suffix_refl _, rfl⟩
  remembers _ _ := rfl

theorem take {id : Nat} (different : id ≠ own) (world : World) :
    Moves own [] world (world.take id).2 where
  sends := output_take_of_ne _ different.symm
  keeps other _ := by
    by_cases same : other = id
    · subst same
      exact ⟨_, List.tail_suffix _, world.output_take_self other⟩
    · exact ⟨_, List.suffix_refl _, output_take_of_ne _ same⟩
  remembers other _ := world.memory?_take id other

/-- First tuples are taken, then the operator acts. -/
theorem trans (earlier : Moves own [] before middle) (later : Moves own results middle after) :
    Moves own results before after where
  sends := later.sends.trans (congrArg (Channel.enqueueAll · results) earlier.sends)
  keeps id different := by
    obtain ⟨queue, is_suffix, output_eq⟩ := earlier.keeps id different
    obtain ⟨rest, rest_suffix, after_eq⟩ := later.keeps id different
    rw [output_eq] at rest_suffix after_eq
    exact ⟨rest, rest_suffix.trans is_suffix, after_eq⟩
  remembers id different := (later.remembers id different).trans (earlier.remembers id different)

theorem modifyCell {cell : Cell} (found : world.cells[own]? = some cell) {change : Cell → Cell}
    (sends : (change cell).output = cell.output.enqueueAll results) :
    Moves own results world (world.modifyCell own change) where
  sends := by rw [output_modifyCell_self found, sends, output_of_getElem? found]
  keeps _ different := ⟨_, List.suffix_refl _, output_modifyCell_of_ne _ different _⟩
  remembers _ different := memory?_modifyCell_of_ne _ different _

theorem act {header : OperatorHeader} {cell : Cell} (found : world.cells[header.id]? = some cell)
    {action : Cell → Cell × Except OperatorError Step}
    (sends : (action cell).1.output = cell.output.enqueueAll results) :
    Moves header.id results world (world.act header action).1 := by
  rw [act_of_getElem? found]
  exact .modifyCell found sends

theorem queue_eq_nil (moves : Moves own results before after) {id : Nat} (different : id ≠ own)
    (empty : (before.output id).queue = []) : (after.output id).queue = [] := by
  obtain ⟨queue, is_suffix, output_eq⟩ := moves.keeps id different
  rw [empty] at is_suffix
  rw [output_eq]
  exact List.suffix_nil.mp is_suffix

theorem sent (moves : Moves own results before after) :
    (after.output own).queue.drop (before.output own).queue.length = results := by
  rw [moves.sends, Channel.enqueueAll_queue, List.drop_left]

end Moves

end World

/-! ## Data tuples -/

/-- A window is given up only if consistency is checked. -/
theorem Evaluation.checks_of_lostConsistency {compute : Contents → Except OperatorError Tuple}
    {checksConsistency : Bool} {windows : List Contents}
    (lost : (ofWindows compute checksConsistency windows).interruption? = some .lostConsistency) :
    checksConsistency = true := by
  induction windows with
  | nil => cases lost
  | cons window windows induction =>
      rw [ofWindows] at lost
      split at lost
      · rename_i objected
        exact (Bool.and_eq_true_iff.mp objected).1
      · split at lost
        · cases lost
        · exact induction lost

namespace Cell

variable {cell : Cell} {role : CommitRole} {tuple : Tuple}

/-- What an operator with one input does with a data tuple: it sends data, and only as the commit
operator it opens a commit or gives up a window. -/
structure Processes (role : CommitRole) (results : List Tuple) (cell : Cell)
    (outcome : Cell × Except OperatorError Step) : Prop where
  /-- The results are sent. -/
  sends : outcome.1.output = cell.output.enqueueAll results
  /-- The results are data. -/
  data : ∀ result ∈ results, result.isEndOfStream = false
  /-- A commit stays open, or is opened. -/
  pending : outcome.1.hasPendingCommit = true →
    cell.hasPendingCommit = true ∨ role.defersClose = true
  /-- Windows are given up only if they are checked. -/
  gives_up : ∀ committed?, outcome.2 = .ok (.lostConsistency committed?) →
    role.checksConsistency = true
  /-- Nothing waits. -/
  settles : ∀ waiting, outcome.2 ≠ .ok (.pendingAbort waiting)

/-- An operator that only reports what it does with its own cell, where it sends nothing. -/
theorem Processes.of_error (error : OperatorError) :
    Processes role [] cell (cell, .error error) where
  sends := rfl
  data := by simp
  pending := .inl
  gives_up := by simp
  settles := by simp

theorem processes_deliver (cell : Cell) (role : CommitRole)
    {outcome : Except OperatorError (List Tuple)}
    (data : ∀ results, outcome = .ok results → ∀ result ∈ results, result.isEndOfStream = false) :
    ∃ results, Processes role results cell (cell.deliver outcome) := by
  rcases outcome with error | (_ | ⟨result, results⟩)
  · exact ⟨[], .of_error error⟩
  · exact ⟨[], rfl, by simp, .inl, by simp [deliver], by simp [deliver]⟩
  · exact ⟨result :: results, rfl, data _ rfl, .inl, by simp [deliver], by simp [deliver]⟩

theorem processes_select (role : CommitRole) (name : String) (condition : Condition)
    (is_data : tuple.isEndOfStream = false) :
    ∃ results, Processes role results cell (cell.select name condition tuple) := by
  rw [select]
  split
  · rename_i seen passed memory_eq
    have data : ∀ results, selectTuple condition tuple = .ok results →
        ∀ result ∈ results, result.isEndOfStream = false := by
      intro results selected result member
      obtain ⟨passes, _, rfl⟩ := map_eq_ok.mp selected
      cases passes with
      | false => cases member
      | true => exact List.mem_singleton.mp member ▸ is_data
    have delivers (counted : Nat) : ∃ results, Processes role results cell
        (({ cell with memory := .select (seen + 1) counted }).deliver
          (selectTuple condition tuple)) := by
      obtain ⟨results, processes⟩ := processes_deliver
        { cell with memory := .select (seen + 1) counted } role data
      refine ⟨results, processes.sends, processes.data, fun pending => ?_, processes.gives_up,
        processes.settles⟩
      rcases processes.pending pending with absent | defers
      · cases absent
      · exact .inr defers
    exact delivers _
  · exact ⟨[], .of_error _⟩

theorem processes_aggregate (header : OperatorHeader) (function : AggregateFunction)
    (role : CommitRole) (tuple : Tuple) :
    ∃ results, Processes role results cell (cell.aggregate header function role tuple) := by
  rw [aggregate]
  split
  · rename_i aggregation memory_eq
    have data : ∀ result ∈ (aggregation.accept function header.schema role tuple).2.1,
        result.isEndOfStream = false := by
      intro result member
      obtain ⟨contents, _, computed, _⟩ := Evaluation.mem_results member
      obtain ⟨values, _, result_eq⟩ := bind_eq_ok.mp computed
      cases pure_eq_ok.mp result_eq
      rfl
    have pending (opened : (aggregation.accept function header.schema role tuple).1.pendingCommit =
        true) : cell.hasPendingCommit = true ∨ role.defersClose = true := by
      simp only [Aggregation.accept, Bool.or_eq_true] at opened
      refine opened.imp (fun old => ?_) fun opens => ?_
      · simpa [hasPendingCommit, memory_eq, Memory.aggregation?] using old
      · unfold Aggregation.opensCommit at opens
        split at opens
        · exact opens
        · cases opens
    have steps {step : Step}
        (reported : (aggregation.accept function header.schema role tuple).2.2 = .ok step) :
        (∀ committed?, step = .lostConsistency committed? → role.checksConsistency = true) ∧
          ∀ waiting, step ≠ .pendingAbort waiting := by
      simp only [Aggregation.accept, Aggregation.stepOf] at reported
      split at reported
      · cases reported
      · rename_i lost
        cases reported
        exact ⟨fun _ _ => Evaluation.checks_of_lostConsistency lost, by simp⟩
      · split at reported
        · cases reported
          split <;> simp
        · cases reported
          simp
    rcases accepted : aggregation.accept function header.schema role tuple with
      ⟨after, results, error | step⟩
    · rw [accepted] at data pending
      exact ⟨results, rfl, data, pending, by simp, by simp⟩
    · rw [accepted] at data pending steps
      refine ⟨results, rfl, data, pending, fun committed? lost => ?_, fun waiting waits => ?_⟩
      · exact (steps rfl).1 committed? (Except.ok.inj lost)
      · exact (steps rfl).2 waiting (Except.ok.inj waits)
  · exact ⟨[], .of_error _⟩

end Cell

namespace World

variable {world : World} {role : CommitRole} {header : OperatorHeader} {logic : SingleLogic}
  {input : Nat} {tuple : Tuple} {queue : List Tuple}

theorem hasPendingCommit_of_getElem? {id : Nat} {cell : Cell}
    (found : world.cells[id]? = some cell) :
    world.hasPendingCommit id = cell.hasPendingCommit := by
  rw [hasPendingCommit, found]
  rfl

/-- A data tuple that was taken is processed. -/
structure Processes (role : CommitRole) (own : Nat) (results : List Tuple) (world : World)
    (outcome : World × Except OperatorError Step) : Prop where
  /-- The results are sent. -/
  moves : Moves own results world outcome.1
  /-- The results are data. -/
  data : ∀ result ∈ results, result.isEndOfStream = false
  /-- A commit stays open, or is opened. -/
  pending : outcome.1.hasPendingCommit own = true →
    world.hasPendingCommit own = true ∨ role.defersClose = true
  /-- Windows are given up only if they are checked. -/
  gives_up : ∀ committed?, outcome.2 = .ok (.lostConsistency committed?) →
    role.checksConsistency = true
  /-- Nothing waits. -/
  settles : ∀ waiting, outcome.2 ≠ .ok (.pendingAbort waiting)

theorem Processes.act {cell : Cell} (action : Cell → Cell × Except OperatorError Step)
    (found : world.cells[header.id]? = some cell) {results : List Tuple}
    (processes : cell.Processes role results (action cell)) :
    Processes role header.id results world (world.act header action) := by
  have moves := Moves.act found processes.sends
  have after_found : (world.act header action).1.cells[header.id]? = some (action cell).1 := by
    rw [act_of_getElem? found, getElem?_modifyCell_self, found]
    rfl
  have step_eq : (world.act header action).2 = (action cell).2 := by rw [act_of_getElem? found]
  refine ⟨moves, processes.data, ?_, step_eq ▸ processes.gives_up, step_eq ▸ processes.settles⟩
  rw [hasPendingCommit_of_getElem? after_found, hasPendingCommit_of_getElem? found]
  exact processes.pending

theorem Processes.of_cells_eq {other : World} {own : Nat} {results : List Tuple}
    {outcome : World × Except OperatorError Step}
    (processes : Processes role own results other outcome) (cells_eq : world.cells = other.cells) :
    Processes role own results world outcome := by
  obtain ⟨cells, catalog⟩ := world
  obtain rfl : cells = other.cells := cells_eq
  exact ⟨⟨processes.moves.sends, processes.moves.keeps, processes.moves.remembers⟩,
    processes.data, processes.pending, processes.gives_up, processes.settles⟩

theorem process_processes {cell : Cell} (found : world.cells[header.id]? = some cell)
    (role : CommitRole) (logic : SingleLogic) (is_data : tuple.isEndOfStream = false) :
    ∃ results, Processes role header.id results world (world.process role header logic tuple) := by
  cases logic with
  | select condition =>
      obtain ⟨results, processes⟩ := cell.processes_select role header.name condition is_data
      exact ⟨results, .act _ found processes⟩
  | project indices =>
      have data : ∀ results, (projectTuple indices header.schema tuple).map ([·]) = .ok results →
          ∀ result ∈ results, result.isEndOfStream = false := by
        intro results projected result member
        obtain ⟨image, image_eq, rfl⟩ := map_eq_ok.mp projected
        obtain ⟨values, _, built⟩ := bind_eq_ok.mp image_eq
        obtain rfl := pure_eq_ok.mp built
        obtain rfl := List.mem_singleton.mp member
        rfl
      obtain ⟨results, processes⟩ := cell.processes_deliver role data
      exact ⟨results, .act _ found processes⟩
  | combine reference condition =>
      simp only [process]
      split
      · exact ⟨[], .refl _ _, by simp, .inl, by simp, by simp⟩
      · rename_i relation _
        rcases world.catalog.readRelation reference.place relation with ⟨snapshot, after⟩
        have data : ∀ results,
            matchSnapshot condition header.schema relation.id snapshot tuple = .ok results →
            ∀ result ∈ results, result.isEndOfStream = false := by
          intro results matched result member
          obtain ⟨entry, _, rfl⟩ := mem_matchRows matched member
          rfl
        obtain ⟨results, processes⟩ := cell.processes_deliver role data
        have found_after :
            ({ world with catalog := after } : World).cells[header.id]? = some cell := found
        have acts := Processes.act
          (·.deliver (matchSnapshot condition header.schema relation.id snapshot tuple))
          found_after processes
        exact ⟨results, acts.of_cells_eq rfl⟩
  | aggregate window function =>
      obtain ⟨results, processes⟩ := cell.processes_aggregate header function role tuple
      exact ⟨results, .act _ found processes⟩

theorem output_process_of_ne {other : Nat} (different : other ≠ header.id) :
    (world.process role header logic tuple).1.output other = world.output other := by
  cases logic with
  | combine reference condition =>
      simp only [process]
      split
      · rfl
      · exact output_act_of_ne _ different
  | _ => exact output_act_of_ne _ different

/-! ## Evaluations of operators with one input -/

theorem evaluateSingle_of_nil (empty : (world.output input).queue = []) :
    world.evaluateSingle role header logic input = (world, .ok .idle) := by
  have taken : world.take input = (none, (world.take input).2) :=
    Prod.ext (by rw [take_fst, empty, List.head?_nil]) rfl
  rw [evaluateSingle, Channel.peek?, empty, taken]
  simp

theorem evaluateSingle_of_open (waits : (world.output input).queue = tuple :: queue)
    (is_open : world.hasPendingCommit header.id = true) :
    world.evaluateSingle role header logic input =
      (world.modifyCell header.id Cell.closeCommit, .ok (.pendingAbort tuple.lowWater)) := by
  rw [evaluateSingle, Channel.peek?, waits, if_pos is_open]
  rfl

/-- The world after a tuple was taken from an input and counted. -/
def counted (world : World) (own input : Nat) : World :=
  (world.take input).2.modifyCell own (·.consume 1)

theorem counted_spec {cell : Cell} {own : Nat} (found : world.cells[own]? = some cell)
    (different : input ≠ own) (waits : (world.output input).queue = tuple :: queue) :
    Moves own [] world (world.counted own input) ∧
      (∃ after, (world.counted own input).cells[own]? = some after ∧ after.memory = cell.memory) ∧
      ((world.counted own input).output input).queue = queue := by
  obtain ⟨rest, rest_found, memory_eq⟩ := exists_cell_take world found input
  refine ⟨(Moves.take different world).trans (.modifyCell rest_found rfl),
    ⟨rest.consume 1, ?_, memory_eq⟩, ?_⟩
  · rw [counted, getElem?_modifyCell_self, rest_found]
    rfl
  · rw [counted, output_modifyCell_of_ne _ different, output_take_self, waits]
    rfl

theorem evaluateSingle_of_marker {cell : Cell} (found : world.cells[header.id]? = some cell)
    (role : CommitRole) (logic : SingleLogic)
    (different : input ≠ header.id) (waits : (world.output input).queue = tuple :: queue)
    (settled : world.hasPendingCommit header.id = false) (ends : tuple.isEndOfStream = true) :
    ∃ after, world.evaluateSingle role header logic input = (after, .ok (.emitted 1)) ∧
      Moves header.id [tuple] world after ∧ (after.output input).queue = queue ∧
      after.memory? header.id = some cell.memory := by
  obtain ⟨moves, ⟨current, current_found, memory_eq⟩, queue_eq⟩ :=
    counted_spec found different waits
  have taken : world.take input = (some tuple, (world.take input).2) :=
    Prod.ext (by rw [take_fst, waits, List.head?_cons]) rfl
  refine ⟨((world.counted header.id input).act header (·.deliver (.ok [tuple]))).1, ?_,
    moves.trans (.act current_found rfl), ?_, ?_⟩
  · rw [evaluateSingle, if_neg (by simp [settled]), taken]
    simp only [ends, if_true]
    rw [← counted, act_of_getElem? current_found]
    rfl
  · rw [output_act_of_ne _ different, queue_eq]
  · rw [memory?_act_self current_found]
    exact congrArg some memory_eq

theorem evaluateSingle_of_data {cell : Cell} (found : world.cells[header.id]? = some cell)
    (role : CommitRole) (logic : SingleLogic)
    (different : input ≠ header.id) (waits : (world.output input).queue = tuple :: queue)
    (settled : world.hasPendingCommit header.id = false) (data : tuple.isEndOfStream = false) :
    ∃ results, Processes role header.id results world
      (world.evaluateSingle role header logic input) ∧
      ((world.evaluateSingle role header logic input).1.output input).queue = queue := by
  obtain ⟨moves, ⟨current, current_found, memory_eq⟩, queue_eq⟩ :=
    counted_spec found different waits
  have taken : world.take input = (some tuple, (world.take input).2) :=
    Prod.ext (by rw [take_fst, waits, List.head?_cons]) rfl
  have evaluated : world.evaluateSingle role header logic input =
      (world.counted header.id input).process role header logic tuple := by
    rw [evaluateSingle, if_neg (by simp [settled]), taken]
    simp only [data, Bool.false_eq_true, if_false]
    rfl
  obtain ⟨results, processes⟩ := process_processes current_found role logic data
  have pending_eq : (world.counted header.id input).hasPendingCommit header.id =
      world.hasPendingCommit header.id := by
    rw [hasPendingCommit_of_getElem? current_found, hasPendingCommit_of_getElem? found,
      Cell.hasPendingCommit, Cell.hasPendingCommit, memory_eq]
  rw [evaluated]
  refine ⟨results, ⟨moves.trans processes.moves, processes.data, pending_eq ▸ processes.pending,
    processes.gives_up, processes.settles⟩, ?_⟩
  rw [output_process_of_ne different, queue_eq]

/-! ## Evaluations of sources -/

theorem modifyCell_const_self {cell : Cell} {own : Nat} (found : world.cells[own]? = some cell) :
    (world.modifyCell own fun _ => cell) = world := by
  have cells_eq : world.cells.modify own (fun _ => cell) = world.cells := by
    refine List.ext_getElem? fun id => ?_
    rw [List.getElem?_modify]
    by_cases same : own = id
    · subst same
      simp [found]
    · simp [same]
  rw [modifyCell, cells_eq]

/-- A source passes on the oldest arrival, if there is one. -/
theorem evaluate_source_cases {cell : Cell} (found : world.cells[header.id]? = some cell)
    (role : CommitRole) :
    ((world.evaluate role (.source header)).1 = world ∧
        (∀ step, (world.evaluate role (.source header)).2 = .ok step → step = .idle) ∧
        ∀ arrivals, cell.memory = .source arrivals → arrivals.queue = []) ∨
      ∃ arrivals tuple queue, cell.memory = .source arrivals ∧ arrivals.queue = tuple :: queue ∧
        Moves header.id [tuple] world (world.evaluate role (.source header)).1 ∧
        (world.evaluate role (.source header)).1.memory? header.id =
          some (.source { arrivals with queue }) ∧
        (world.evaluate role (.source header)).2 = .ok (.emitted 1) := by
  rw [evaluate]
  have stays {step : Except OperatorError Step}
      (stays : cell.passOn header.name = (cell, step)) :
      (world.act header (·.passOn header.name)) = (world, step) := by
    rw [act_of_getElem? found, stays, modifyCell_const_self found]
  cases memory_eq : cell.memory with
  | source arrivals =>
      cases queue_eq : arrivals.queue with
      | nil =>
          left
          have idle : cell.passOn header.name = (cell, .ok .idle) := by
            simp [Cell.passOn, memory_eq, Channel.dequeue?, queue_eq]
          rw [stays idle]
          refine ⟨rfl, by simp, ?_⟩
          rintro other ⟨⟩
          exact queue_eq
      | cons tuple queue =>
          right
          have passes : cell.passOn header.name =
              ((({ cell with memory := .source { arrivals with queue } }).consume 1).send [tuple],
                .ok (.emitted 1)) := by
            simp [Cell.passOn, memory_eq, Channel.dequeue?, queue_eq]
          refine ⟨arrivals, tuple, queue, rfl, queue_eq, .act found (by rw [passes]; rfl), ?_, ?_⟩
          · rw [memory?_act_self found, passes]
            rfl
          · rw [act_of_getElem? found, passes]
  | _ =>
      left
      have fails : cell.passOn header.name = (cell, .error (.invalidShape header.name)) := by
        simp [Cell.passOn, memory_eq]
      rw [stays fails]
      exact ⟨rfl, by simp, by simp⟩

end World

/-! ## Evaluations of joins -/

/-- Receives a tuple, if there is one, and reports whether a window was completed. -/
def JoinSide.receive (side : JoinSide) : Option Tuple → JoinSide × Bool
  | none => (side, false)
  | some tuple =>
    if tuple.isEndOfStream then ({ side with hasEnded := true }, false) else side.accept tuple

namespace WindowJoin

/-- What becomes of a join that receives at most one tuple on each side. -/
def Turn.ofArrivals (state : WindowJoin) (leftTuple? rightTuple? : Option Tuple) : Turn :=
  ((leftTuple?.map (Side.left, ·)).toList ++ (rightTuple?.map (Side.right, ·)).toList).foldl receive
    { join := state }

/-- Each side receives its own tuple. -/
theorem Turn.ofArrivals_spec (state : WindowJoin) (left? right? : Option Tuple) :
    (ofArrivals state left? right?).join =
        { left := (state.left.receive left?).1, right := (state.right.receive right?).1 } ∧
      (ofArrivals state left? right?).completed =
        ((state.left.receive left?).2 || (state.right.receive right?).2) := by
  rcases left? with _ | left <;> rcases right? with _ | right
  · exact ⟨rfl, rfl⟩
  · cases ends : right.isEndOfStream <;>
      simp [ofArrivals, Turn.receive, JoinSide.receive, ends, endSide, accept, side, setSide]
  · cases ends : left.isEndOfStream <;>
      simp [ofArrivals, Turn.receive, JoinSide.receive, ends, endSide, accept, side, setSide]
  · cases left_ends : left.isEndOfStream <;> cases right_ends : right.isEndOfStream <;>
      simp [ofArrivals, Turn.receive, JoinSide.receive, left_ends, right_ends, endSide, accept,
        side, setSide]

end WindowJoin

namespace World

variable {world : World} {header : OperatorHeader} {logic : JoinLogic} {left right : Nat}

theorem evaluateJoin_of_nil (left_empty : (world.output left).queue = [])
    (right_empty : (world.output right).queue = []) :
    world.evaluateJoin header logic left right = (world, .ok .idle) := by
  have left_taken : world.take left = (none, world) := by
    have nothing : (world.take left).1 = none := by rw [take_fst, left_empty, List.head?_nil]
    rcases taken : world.take left with ⟨_ | tuple, rest⟩
    · rw [(take_eq_none taken).2]
    · cases (congrArg Prod.fst taken).symm.trans nothing
  have right_taken : (world.take right).1 = none := by
    rw [take_fst, right_empty, List.head?_nil]
  simp [evaluateJoin, left_taken, right_taken]

/-- What one evaluation of a join does with the tuples that wait for it. -/
structure Joins (own left right : Nat) (cell : Cell) (results : List Tuple) (world after : World) :
    Prop where
  /-- The results are sent. -/
  moves : Moves own results world after
  /-- One tuple is taken from the left side, if one waits there. -/
  left_queue : (after.output left).queue = (world.output left).queue.tail
  /-- One tuple is taken from the right side, if one waits there. -/
  right_queue : (after.output right).queue = (world.output right).queue.tail
  /-- The markers are sent before the joined tuples. -/
  received : (∃ state joined, cell.memory = .join state ∧
      (∀ result ∈ joined, result.isEndOfStream = false) ∧
      results =
        (WindowJoin.Turn.ofArrivals state (world.output left).queue.head?
          (world.output right).queue.head?).markers ++ joined ∧
      ((WindowJoin.Turn.ofArrivals state (world.output left).queue.head?
          (world.output right).queue.head?).completed = false → joined = []) ∧
      after.memory? own = some (.join (WindowJoin.Turn.ofArrivals state
        (world.output left).queue.head? (world.output right).queue.head?).join)) ∨
    results = [] ∧ (∀ state, cell.memory ≠ .join state) ∧ after.memory? own = some cell.memory

/-- Joined tuples are data, and there are none unless a window was completed. -/
theorem data_of_turn_results (turn : WindowJoin.Turn) (condition : Condition) (schema : Schema) :
    (∀ result ∈ (turn.results condition schema).toOption.getD [], result.isEndOfStream = false) ∧
      (turn.completed = false → (turn.results condition schema).toOption.getD [] = []) := by
  cases computed : turn.results condition schema with
  | error error => exact ⟨by simp [Except.toOption], fun _ => rfl⟩
  | ok results =>
      rw [WindowJoin.Turn.results] at computed
      split at computed
      · rename_i completed
        refine ⟨fun result member => ?_, fun incomplete => ?_⟩
        · obtain ⟨_, _, _, _, _, rfl, _⟩ := WindowJoin.mem_results computed member
          rfl
        · rw [incomplete] at completed
          cases completed
      · cases computed
        exact ⟨by simp [Except.toOption], fun _ => rfl⟩

/-- A join that receives tuples sends the markers, then the joined tuples unless they fail. -/
theorem joinArrivals_spec (state : WindowJoin) (header : OperatorHeader) (condition : Condition)
    (arrivals : List (Side × Tuple)) {turn : WindowJoin.Turn}
    (turn_eq : arrivals.foldl WindowJoin.Turn.receive { join := state } = turn) :
    ∃ step : Except OperatorError Step,
      (∀ cell : Cell, cell.memory = .join state →
        (cell.joinArrivals header condition arrivals).1.output = cell.output.enqueueAll
            (turn.markers ++ (turn.results condition header.schema).toOption.getD []) ∧
          (cell.joinArrivals header condition arrivals).1.memory = .join turn.join ∧
          (cell.joinArrivals header condition arrivals).2 = step) ∧
      ∀ reported, step = .ok reported → reported.isSignal = false := by
  cases computed : turn.results condition header.schema with
  | error error =>
      refine ⟨.error error, fun cell memory_eq => ?_, by simp⟩
      simp [Cell.joinArrivals, memory_eq, turn_eq, computed, Except.toOption, Cell.consume]
  | ok results =>
      cases sent : turn.markers ++ results with
      | nil =>
          refine ⟨.ok .noOutput, fun cell memory_eq => ?_, by rintro _ ⟨⟩; rfl⟩
          simp [Cell.joinArrivals, memory_eq, turn_eq, computed, Except.toOption, Cell.consume,
            sent, Cell.deliver, Channel.enqueueAll]
      | cons first later =>
          refine ⟨.ok (.emitted (first :: later).length), fun cell memory_eq => ?_,
            by rintro _ ⟨⟩; rfl⟩
          simp [Cell.joinArrivals, memory_eq, turn_eq, computed, Except.toOption, Cell.consume,
            sent, Cell.deliver, Cell.send]

theorem isEmpty_arrivals {left right : List Tuple} (waits : left ≠ [] ∨ right ≠ []) :
    ((left.head?.map (Side.left, ·)).toList ++
      (right.head?.map (Side.right, ·)).toList).isEmpty = false := by
  cases left with
  | cons tuple queue => simp
  | nil =>
      cases right with
      | cons tuple queue => simp
      | nil => simp at waits

/-- What is left when a join has taken a tuple from each side on which one waits. -/
structure Takes (own left right : Nat) (cell : Cell) (world rest : World) : Prop where
  /-- Nothing is sent yet. -/
  moves : Moves own [] world rest
  /-- The join remembers what it did. -/
  found : ∃ current, rest.cells[own]? = some current ∧ current.memory = cell.memory
  left_queue : (rest.output left).queue = (world.output left).queue.tail
  right_queue : (rest.output right).queue = (world.output right).queue.tail

/-- A join takes tuples before it acts on its own cell. -/
theorem evaluateJoin_takes {cell : Cell} (found : world.cells[header.id]? = some cell)
    (logic : JoinLogic) (left_ne : left ≠ header.id) (right_ne : right ≠ header.id)
    (apart : left ≠ right)
    (waits : (world.output left).queue ≠ [] ∨ (world.output right).queue ≠ []) :
    ∃ rest, Takes header.id left right cell world rest ∧
      world.evaluateJoin header logic left right =
        rest.act header (·.joinArrivals header logic.condition
          (((world.output left).queue.head?.map (Side.left, ·)).toList ++
            ((world.output right).queue.head?.map (Side.right, ·)).toList)) := by
  have left_fst := world.take_fst left
  have right_fst := (world.take left).2.take_fst right
  rw [output_take_of_ne _ apart.symm] at right_fst
  obtain ⟨middle, middle_found, middle_memory⟩ := exists_cell_take world found left
  obtain ⟨current, current_found, current_memory⟩ := exists_cell_take _ middle_found right
  refine ⟨((world.take left).2.take right).2, ⟨?_, ?_, ?_, ?_⟩, ?_⟩
  · exact (Moves.take left_ne world).trans (Moves.take right_ne _)
  · exact ⟨current, current_found, current_memory.trans middle_memory⟩
  · rw [output_take_of_ne _ apart, output_take_self]
  · rw [output_take_self, output_take_of_ne _ apart.symm]
  · simp only [evaluateJoin, left_fst, right_fst, isEmpty_arrivals waits, Bool.false_eq_true,
      if_false]

theorem evaluateJoin_joins {cell : Cell} (found : world.cells[header.id]? = some cell)
    (logic : JoinLogic) (left_ne : left ≠ header.id) (right_ne : right ≠ header.id)
    (apart : left ≠ right)
    (waits : (world.output left).queue ≠ [] ∨ (world.output right).queue ≠ []) :
    (∃ results, Joins header.id left right cell results world
      (world.evaluateJoin header logic left right).1) ∧
      ∀ step, (world.evaluateJoin header logic left right).2 = .ok step →
        step.isSignal = false := by
  obtain ⟨rest, ⟨moves, ⟨current, current_found, memory_eq⟩, left_queue, right_queue⟩, evaluated⟩ :=
    evaluateJoin_takes found logic left_ne right_ne apart waits
  rw [evaluated]
  have keeps {results : List Tuple} (action : Cell → Cell × Except OperatorError Step)
      (sends : (action current).1.output = current.output.enqueueAll results) :
      Moves header.id results world (rest.act header action).1 ∧
        ((rest.act header action).1.output left).queue = (world.output left).queue.tail ∧
        ((rest.act header action).1.output right).queue = (world.output right).queue.tail :=
    ⟨moves.trans (.act current_found sends), by rw [output_act_of_ne _ left_ne, left_queue],
      by rw [output_act_of_ne _ right_ne, right_queue]⟩
  by_cases joins : ∃ state, cell.memory = .join state
  · obtain ⟨state, state_eq⟩ := joins
    obtain ⟨step, joined, quiet⟩ := joinArrivals_spec state header logic.condition
      (((world.output left).queue.head?.map (Side.left, ·)).toList ++
        ((world.output right).queue.head?.map (Side.right, ·)).toList) rfl
    obtain ⟨sends, remembers, step_eq⟩ := joined current (memory_eq.trans state_eq)
    obtain ⟨data, incomplete⟩ := data_of_turn_results
      (WindowJoin.Turn.ofArrivals state (world.output left).queue.head?
        (world.output right).queue.head?) logic.condition header.schema
    obtain ⟨acts, left_eq, right_eq⟩ :=
      keeps (·.joinArrivals header logic.condition _) sends
    refine ⟨⟨_, acts, left_eq, right_eq, .inl ⟨state, _, state_eq, data, rfl, incomplete, ?_⟩⟩,
      ?_⟩
    · rw [memory?_act_self current_found, remembers]
      rfl
    · rwa [act_of_getElem? current_found, step_eq]
  · have unchanged (arrivals : List (Side × Tuple)) :
        current.joinArrivals header logic.condition arrivals =
          (current, .error (.invalidShape header.name)) := by
      rw [Cell.joinArrivals]
      split
      · rename_i state state_eq
        exact absurd ⟨state, memory_eq.symm.trans state_eq⟩ joins
      · rfl
    have sends_none (arrivals : List (Side × Tuple)) :
        (current.joinArrivals header logic.condition arrivals).1.output =
          current.output.enqueueAll [] := by
      rw [unchanged]
      rfl
    obtain ⟨acts, left_eq, right_eq⟩ :=
      keeps (·.joinArrivals header logic.condition _) (sends_none _)
    refine ⟨⟨[], acts, left_eq, right_eq, .inr ⟨rfl, fun state state_eq => joins ⟨state, state_eq⟩,
      ?_⟩⟩, ?_⟩
    · rw [memory?_act_self current_found, unchanged, memory_eq]
    · rw [act_of_getElem? current_found, unchanged]
      simp

end World

end StreamQuery
