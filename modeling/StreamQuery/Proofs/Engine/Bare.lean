import StreamQuery.Proofs.Engine.Run
import StreamQuery.Proofs.Operator.Counters

/-!
# States without precautions

Optimistic control takes precautions for a repetition: outputs are backed up and commits are
counted. Operators see none of this. As long as no window mixes versions, evaluating an operator and
then forgetting the precautions is the same as forgetting them first and evaluating the operator
without control.
-/

namespace StreamQuery

/-- A channel without its backup. -/
def Channel.bare (channel : Channel) : Channel where
  queue := channel.queue

/-- A cell whose output is not backed up. -/
def Cell.bare (cell : Cell) : Cell :=
  { cell with output := cell.output.bare }

/-- A catalog that is read without control. -/
def Catalog.bare (catalog : Catalog) : Catalog :=
  { catalog with access := { catalog.access with mode := .uncontrolled } }

/-- A world without backups, whose relations are read without control. -/
def World.bare (world : World) : World where
  cells := world.cells.map Cell.bare
  catalog := world.catalog.bare

/-- The state of a running query without backups and without the count of commits. -/
def Execution.bare (execution : Execution) : Execution :=
  { execution with
    world := execution.world.bare
    metrics := { execution.metrics with commits := 0 } }

/-- The part of an operator in concurrency control if there is none. -/
def CommitRole.none : CommitRole where
  checksConsistency := false
  signalsCommit := false
  defersClose := false

theorem CommitRole.none_defersClose : none.defersClose = false :=
  rfl

theorem CommitRole.of_uncontrolled (isCommitOperator : Bool) :
    of .uncontrolled isCommitOperator = none := by
  cases isCommitOperator <;> rfl

theorem CommitRole.of_optimistic_defersClose (isCommitOperator : Bool) :
    (of .optimistic isCommitOperator).defersClose = false := by
  cases isCommitOperator <;> rfl

/-- What an operator reports without control and with it, as long as no window mixes versions. -/
inductive SameReport : Except OperatorError Step → Except OperatorError Step → Prop where
  | failed (error : OperatorError) : SameReport (.error error) (.error error)
  | same {step : Step} : (∀ committed?, step ≠ .lostConsistency committed?) →
      SameReport (.ok step) (.ok step)
  /-- Results are reported as a commit. -/
  | committed (count : Nat) (mark : Int) : SameReport (.ok (.emitted count)) (.ok (.commit mark))

/-- An outcome without control is that with control, without the precautions. -/
structure Mirrors {State : Type} (bare : State → State)
    (plain controlled : State × Except OperatorError Step) : Prop where
  /-- The states differ in precautions only. -/
  state_eq : plain.1 = bare controlled.1
  /-- The reports differ in commits only. -/
  report : SameReport plain.2 controlled.2

/-! ## Channels and cells -/

theorem Channel.bare_enqueueAll (channel : Channel) (tuples : List Tuple) :
    (channel.enqueueAll tuples).bare = channel.bare.enqueueAll tuples := by
  induction tuples generalizing channel with
  | nil => rfl
  | cons tuple tuples induction => exact induction (channel.enqueue tuple)

namespace Cell

theorem bare_send (cell : Cell) (tuples : List Tuple) :
    (cell.send tuples).bare = cell.bare.send tuples := by
  simp [send, bare, Channel.bare_enqueueAll]

theorem mirrors_deliver (cell : Cell) (outcome : Except OperatorError (List Tuple)) :
    Mirrors bare (cell.bare.deliver outcome) (cell.deliver outcome) := by
  rcases outcome with error | ⟨_ | ⟨first, results⟩⟩
  · exact ⟨rfl, .failed error⟩
  · exact ⟨rfl, .same nofun⟩
  · exact ⟨(cell.bare_send _).symm, .same nofun⟩

theorem mirrors_passOn (cell : Cell) (name : String) :
    Mirrors bare (cell.bare.passOn name) (cell.passOn name) := by
  simp only [passOn, bare]
  split
  · rename_i arrivals memory_eq
    cases arrivals.dequeue? with
    | none => exact ⟨rfl, .same nofun⟩
    | some taken =>
        refine ⟨?_, .same nofun⟩
        exact (bare_send (({ cell with memory := .source taken.2 } : Cell).consume 1) _).symm
  · exact ⟨rfl, .failed _⟩

theorem mirrors_select (cell : Cell) (name : String) (condition : Condition) (tuple : Tuple) :
    Mirrors bare (cell.bare.select name condition tuple) (cell.select name condition tuple) := by
  simp only [select]
  cases memory_eq : cell.memory with
  | select seen passed =>
      rw [show cell.bare.memory = cell.memory from rfl, memory_eq]
      exact mirrors_deliver { cell with memory := .select _ _ } _
  | _ =>
      rw [show cell.bare.memory = cell.memory from rfl, memory_eq]
      exact ⟨rfl, .failed _⟩

theorem mirrors_joinArrivals (cell : Cell) (header : OperatorHeader) (condition : Condition)
    (arrivals : List (Side × Tuple)) :
    Mirrors bare (cell.bare.joinArrivals header condition arrivals)
      (cell.joinArrivals header condition arrivals) := by
  simp only [joinArrivals, bare]
  split
  · split
    · exact mirrors_deliver (({ cell with memory := _ } : Cell).consume arrivals.length) _
    · exact ⟨by simp [bare, consume, Channel.bare_enqueueAll], .failed _⟩
  · exact ⟨rfl, .failed _⟩

theorem bare_closeCommit (cell : Cell) : cell.closeCommit.bare = cell.bare.closeCommit := by
  simp only [closeCommit, bare]
  split <;> rfl

end Cell

/-! ## Aggregations -/

/-- Where no window mixes versions, it makes no difference whether this is checked. -/
theorem Evaluation.ofWindows_of_consistent (compute : Contents → Except OperatorError Tuple)
    (checksConsistency : Bool) {windows : List Contents}
    (consistent : ∀ window ∈ windows, window.isConsistent = true) :
    ofWindows compute checksConsistency windows = ofWindows compute false windows := by
  induction windows with
  | nil => rfl
  | cons window windows induction =>
      simp [ofWindows, consistent window List.mem_cons_self,
        induction fun later member => consistent later (List.mem_cons_of_mem _ member)]

theorem Evaluation.ofWindows_unchecked (compute : Contents → Except OperatorError Tuple)
    (windows : List Contents) :
    (ofWindows compute false windows).interruption? ≠ some .lostConsistency := by
  induction windows with
  | nil => simp [ofWindows]
  | cons window windows induction =>
      simp only [ofWindows, Bool.false_and, Bool.false_eq_true, if_false]
      split
      · simp
      · exact induction

theorem Aggregation.sameReport_stepOf (role : CommitRole) {evaluation : Evaluation}
    (unmixed : evaluation.interruption? ≠ some .lostConsistency) :
    SameReport (stepOf .none evaluation) (stepOf role evaluation) := by
  simp only [stepOf]
  split
  · exact .failed _
  · exact absurd ‹_› unmixed
  · split
    · cases role.signalsCommit with
      | false => exact .same nofun
      | true => exact .committed _ _
    · exact .same nofun

theorem Aggregation.opensCommit_of_undeferred {role : CommitRole}
    (undeferred : role.defersClose = false) (step : Except OperatorError Step) :
    opensCommit role step = false := by
  simp only [opensCommit]
  split
  · exact undeferred
  · rfl

theorem Cell.mirrors_aggregate (cell : Cell) (header : OperatorHeader)
    (function : AggregateFunction) {role : CommitRole} (undeferred : role.defersClose = false)
    (tuple : Tuple)
    (consistent : ∀ aggregation, cell.memory = .aggregate aggregation →
      ∀ window ∈ (aggregation.synopsis.enqueue tuple).2, window.isConsistent = true) :
    Mirrors bare (cell.bare.aggregate header function .none tuple)
      (cell.aggregate header function role tuple) := by
  simp only [aggregate, bare]
  split
  · rename_i aggregation memory_eq
    have evaluated := Evaluation.ofWindows_of_consistent (function.apply header.schema)
      role.checksConsistency (consistent aggregation memory_eq)
    have report := Aggregation.sameReport_stepOf role
      (Evaluation.ofWindows_unchecked (function.apply header.schema)
        (aggregation.synopsis.enqueue tuple).2)
    simp only [Aggregation.accept, evaluated, Aggregation.opensCommit_of_undeferred undeferred,
      Aggregation.opensCommit_of_undeferred CommitRole.none_defersClose, Bool.or_false,
      show CommitRole.none.checksConsistency = false from rfl]
    generalize Evaluation.ofWindows (function.apply header.schema) false
      (aggregation.synopsis.enqueue tuple).2 = evaluation at report ⊢
    generalize Aggregation.stepOf .none evaluation = plain at report ⊢
    generalize Aggregation.stepOf role evaluation = controlled at report ⊢
    cases report with
    | failed error => exact ⟨by simp [bare, Channel.bare_enqueueAll], .failed error⟩
    | same unmixed => exact ⟨by simp [bare, send, Channel.bare_enqueueAll], .same unmixed⟩
    | committed count mark =>
        exact ⟨by simp [bare, send, Channel.bare_enqueueAll], .committed count mark⟩
  · exact ⟨rfl, .failed _⟩

/-! ## Worlds -/

namespace World

theorem bare_getElem? (world : World) (id : Nat) :
    world.bare.cells[id]? = world.cells[id]?.map Cell.bare := by
  simp [bare]

theorem bare_output (world : World) (id : Nat) :
    world.bare.output id = (world.output id).bare := by
  simp only [output, bare_getElem?]
  cases world.cells[id]? <;> rfl

theorem bare_hasPendingCommit (world : World) (id : Nat) :
    world.bare.hasPendingCommit id = world.hasPendingCommit id := by
  simp only [hasPendingCommit, bare_getElem?, Option.any_map]
  rfl

/-- A change of a cell that does not depend on the precautions. -/
theorem bare_modifyCell (world : World) (id : Nat) {change plain : Cell → Cell}
    (commutes : ∀ cell, (change cell).bare = plain cell.bare) :
    (world.modifyCell id change).bare = world.bare.modifyCell id plain := by
  have cells_eq : (world.cells.modify id change).map Cell.bare =
      (world.cells.map Cell.bare).modify id plain := by
    refine List.ext_getElem? fun other => ?_
    simp only [List.getElem?_map, List.getElem?_modify]
    cases world.cells[other]? with
    | none => rfl
    | some cell => by_cases same : id = other <;> simp [same, commutes]
  simp [bare, modifyCell, cells_eq]

theorem bare_modifyOutput (world : World) (id : Nat) {change plain : Channel → Channel}
    (commutes : ∀ channel, (change channel).bare = plain channel.bare) :
    (world.modifyOutput id change).bare = world.bare.modifyOutput id plain :=
  world.bare_modifyCell id fun cell => by simp [Cell.bare, commutes]

/-- A change of outputs that concerns the precautions only. -/
theorem bare_modifyOutputs (world : World) (ids : List Nat) {change : Channel → Channel}
    (unseen : ∀ channel, (change channel).bare = channel.bare) :
    (world.modifyOutputs ids change).bare = world.bare := by
  induction ids generalizing world with
  | nil => rfl
  | cons id ids induction =>
      have same : (world.modifyOutput id change).bare =
          world.bare.modifyOutput id fun channel => channel := world.bare_modifyOutput id unseen
      refine (induction (world.modifyOutput id change)).trans (same.trans ?_)
      exact congrArg (World.mk · world.bare.catalog) (List.modify_id id world.bare.cells)

theorem bare_take (world : World) (id : Nat) :
    world.bare.take id = ((world.take id).1, (world.take id).2.bare) := by
  simp only [take, bare_output]
  cases queue_eq : (world.output id).queue with
  | nil => simp [Channel.dequeue?, Channel.bare, queue_eq]
  | cons tuple queue =>
      have modified : (world.modifyOutput id fun _ => { world.output id with queue }).bare =
          world.bare.modifyOutput id fun _ => { queue } := world.bare_modifyOutput id fun _ => rfl
      simp [Channel.dequeue?, Channel.bare, queue_eq, modified]

theorem mirrors_act (world : World) (header : OperatorHeader)
    {plain action : Cell → Cell × Except OperatorError Step}
    (mirrored : ∀ cell, world.cells[header.id]? = some cell →
      Mirrors Cell.bare (plain cell.bare) (action cell)) :
    Mirrors bare (world.bare.act header plain) (world.act header action) := by
  simp only [act, bare_getElem?]
  cases found : world.cells[header.id]? with
  | none => exact ⟨rfl, .failed _⟩
  | some cell =>
      obtain ⟨state_eq, report⟩ := mirrored cell found
      refine ⟨?_, report⟩
      exact (world.bare_modifyCell header.id fun _ => state_eq.symm).symm

/-! ## Evaluations -/

/-- Under optimistic control a relation is read as without control. -/
theorem bare_readRelation {catalog : Catalog} (optimistic : catalog.access.mode = .optimistic)
    (place : Nat) (relation : Relation) :
    catalog.readRelation place relation = (relation.snapshot, catalog) ∧
      catalog.bare.readRelation place relation = (relation.snapshot, catalog.bare) := by
  refine ⟨?_, rfl⟩
  rw [Catalog.readRelation, optimistic]

section

variable {world : World} {role : CommitRole} {header : OperatorHeader}

theorem mirrors_process {logic : SingleLogic} {tuple : Tuple}
    (optimistic : world.catalog.access.mode = .optimistic) (undeferred : role.defersClose = false)
    (consistent : logic.isAggregation = true → ∀ cell aggregation,
      world.cells[header.id]? = some cell → cell.memory = .aggregate aggregation →
        ∀ window ∈ (aggregation.synopsis.enqueue tuple).2, window.isConsistent = true) :
    Mirrors bare (world.bare.process .none header logic tuple)
      (world.process role header logic tuple) := by
  cases logic with
  | select condition =>
      exact world.mirrors_act header fun cell _ => cell.mirrors_select header.name condition tuple
  | project indices => exact world.mirrors_act header fun cell _ => cell.mirrors_deliver _
  | combine reference condition =>
      simp only [process]
      rw [show world.bare.catalog.relations = world.catalog.relations from rfl]
      split
      · exact ⟨rfl, .failed _⟩
      · rename_i relation _
        obtain ⟨read, read_bare⟩ := bare_readRelation optimistic reference.place relation
        rw [read, show world.bare.catalog = world.catalog.bare from rfl, read_bare]
        exact world.mirrors_act header fun cell _ => cell.mirrors_deliver _
  | aggregate window function =>
      exact world.mirrors_act header fun cell found =>
        cell.mirrors_aggregate header function undeferred tuple fun aggregation memory_eq =>
          consistent rfl cell aggregation found memory_eq

theorem mirrors_evaluateSingle {logic : SingleLogic} {input : QueryTree}
    (optimistic : world.catalog.access.mode = .optimistic) (undeferred : role.defersClose = false)
    (different : input.id ≠ header.id)
    (consistent : ∀ window ∈ world.completedWindows (.single header logic input),
      window.isConsistent = true) :
    Mirrors bare (world.bare.evaluateSingle .none header logic input.id)
      (world.evaluateSingle role header logic input.id) := by
  simp only [evaluateSingle, bare_hasPendingCommit, bare_output, bare_take]
  split
  · rw [show (world.output input.id).bare.peek? = (world.output input.id).peek? from rfl]
    split
    · exact ⟨(world.bare_modifyCell header.id Cell.bare_closeCommit).symm, .same (by simp)⟩
    · exact ⟨rfl, .same (by simp)⟩
  · rename_i settled
    rcases taken : world.take input.id with ⟨_ | tuple, rest⟩
    · exact ⟨rfl, .same (by simp)⟩
    · have counted : (rest.modifyCell header.id (·.consume 1)).bare =
          rest.bare.modifyCell header.id (·.consume 1) :=
        rest.bare_modifyCell header.id fun _ => rfl
      simp only [← counted]
      split
      · exact mirrors_act _ header fun cell _ => cell.mirrors_deliver _
      · rename_i is_data
        have rest_catalog : rest.catalog = world.catalog := by
          simpa [taken] using world.take_catalog input.id
        refine mirrors_process (by rw [modifyCell_catalog, rest_catalog, optimistic]) undeferred
          fun aggregates cell aggregation found memory_eq => ?_
        have drains : Drains header.id world (rest.modifyCell header.id (·.consume 1)) := by
          have drained := Drains.take different world
          rw [taken] at drained
          exact drained.trans (.consume header.id 1 rest)
        obtain ⟨old, old_found, _, old_memory⟩ := drains.self cell found
        cases logic with
        | aggregate window function =>
            rw [completedWindows_of_take settled taken is_data old_found
              (old_memory ▸ memory_eq)] at consistent
            exact consistent
        | _ => cases aggregates

theorem mirrors_evaluateJoin {logic : JoinLogic} {left right : QueryTree} :
    Mirrors bare (world.bare.evaluateJoin header logic left.id right.id)
      (world.evaluateJoin header logic left.id right.id) := by
  simp only [evaluateJoin, bare_take]
  split
  · exact ⟨rfl, .same (by simp)⟩
  · exact mirrors_act _ header fun cell _ => cell.mirrors_joinArrivals header logic.condition _

end

/-- An evaluation under optimistic control is one without control, as long as it completes no window
that mixes versions. -/
theorem mirrors_evaluate {world : World} {role : CommitRole} {operator : QueryTree}
    (optimistic : world.catalog.access.mode = .optimistic) (undeferred : role.defersClose = false)
    (different : ∀ input ∈ operator.inputs, input.id ≠ operator.id)
    (consistent : ∀ window ∈ world.completedWindows operator, window.isConsistent = true) :
    Mirrors bare (world.bare.evaluate .none operator) (world.evaluate role operator) := by
  cases operator with
  | source header => exact world.mirrors_act header fun cell _ => cell.mirrors_passOn header.name
  | single header logic input =>
      exact mirrors_evaluateSingle optimistic undeferred
        (different input (by simp [QueryTree.inputs])) consistent
  | join header logic left right => exact mirrors_evaluateJoin

end World

/-! ## The scheduler -/

namespace Schedule

/-- The reaction of optimistic control to a window that is not mixed concerns precautions only. -/
theorem bare_reactOptimistically (schedule : Schedule) (execution : Execution) {step : Step}
    (unmixed : ∀ committed?, step ≠ .lostConsistency committed?) :
    (schedule.reactOptimistically execution step).bare = execution.bare ∧
      (schedule.reactOptimistically execution step).metrics.redoCount =
        execution.metrics.redoCount := by
  cases step with
  | lostConsistency committed? => exact absurd rfl (unmixed committed?)
  | commit mark =>
      refine ⟨?_, rfl⟩
      have world_eq :
          (execution.world.modifyOutputs schedule.redo.streams (·.evictBefore mark)).bare =
            execution.world.bare := World.bare_modifyOutputs _ _ fun _ => rfl
      simp [reactOptimistically, commitBefore, modifyInlets, Execution.countCommit, Execution.bare,
        world_eq]
  | _ => exact ⟨rfl, rfl⟩

/-- What a wake-up makes of the only evaluation in it. -/
def conclude (schedule : Schedule) (execution : Execution) (operator : QueryTree) :
    World × Except OperatorError Step → Execution × Except ControlError Unit
  | (world, .error error) =>
    ({ schedule.advanceCursor execution with world }, .error (.evaluation operator.name error))
  | (world, .ok step) =>
    (schedule.react (({ schedule.advanceCursor execution with world }).countStep step) step,
      .ok ())

theorem wakeUp_of_batchCount_eq_one (schedule : Schedule) {execution : Execution}
    (single : execution.batchCount = 1) {operator : QueryTree}
    (next : schedule.order[execution.cursor]? = some operator) :
    schedule.wakeUp execution =
      schedule.conclude execution operator
        (execution.world.evaluate (schedule.role operator.id) operator) := by
  rw [wakeUp, next]
  simp only [single, evaluateBatch, advanceCursor]
  rcases execution.world.evaluate (schedule.role operator.id) operator with ⟨world, error | step⟩
  · simp [conclude, advanceCursor, single]
  · dsimp only
    by_cases stops : (step = .idle || step.isSignal) = true
    · rw [if_pos stops]
      simp only [conclude, advanceCursor, single]
    · -- Neither an idle step nor this one makes the scheduler act.
      have quiet : step.isSignal = false := by
        cases signals : step.isSignal <;> simp_all
      rw [if_neg stops]
      simp only [conclude, advanceCursor, single,
        schedule.react_eq_self_of_isSignal_eq_false _ step quiet,
        schedule.react_eq_self_of_isSignal_eq_false _ .idle rfl]

section

variable {controlled plain : Schedule} {execution : Execution}

theorem bare_conclude (tree_eq : plain.tree = controlled.tree)
    (controlled_mode : controlled.mode = .optimistic) (plain_mode : plain.mode = .uncontrolled)
    (operator : QueryTree) {plain_outcome outcome : World × Except OperatorError Step}
    (mirrored : Mirrors World.bare plain_outcome outcome) :
    plain.conclude execution.bare operator plain_outcome =
        ((controlled.conclude execution operator outcome).1.bare,
          (controlled.conclude execution operator outcome).2) ∧
      (controlled.conclude execution operator outcome).1.metrics.redoCount =
        execution.metrics.redoCount ∧
      (controlled.conclude execution operator outcome).1.batchCount = execution.batchCount := by
  obtain ⟨plain_world, plain_report⟩ := plain_outcome
  obtain ⟨world, report⟩ := outcome
  obtain ⟨rfl, same⟩ := mirrored
  have order_eq : plain.order = controlled.order := congrArg QueryTree.postOrder tree_eq
  have reacts (step : Step) (current : Execution) :
      controlled.react current step = controlled.reactOptimistically current step := by
    rw [react, controlled_mode]
  have stays (step : Step) (current : Execution) : plain.react current step = current := by
    rw [react, plain_mode]
  cases same with
  | failed error => exact ⟨by simp [conclude, advanceCursor, Execution.bare, order_eq], rfl, rfl⟩
  | same unmixed =>
      obtain ⟨bare_eq, redoCount_eq⟩ := controlled.bare_reactOptimistically _ unmixed
      have batchCount_eq := congrArg Execution.batchCount bare_eq
      simp only [conclude, reacts, stays]
      exact ⟨by rw [bare_eq]; simp [advanceCursor, Execution.bare, Execution.countStep, order_eq],
        redoCount_eq, batchCount_eq⟩
  | committed count mark =>
      have unmixed : ∀ committed?, Step.commit mark ≠ .lostConsistency committed? := by simp
      obtain ⟨bare_eq, redoCount_eq⟩ := controlled.bare_reactOptimistically _ unmixed
      have batchCount_eq := congrArg Execution.batchCount bare_eq
      simp only [conclude, reacts, stays]
      exact ⟨by rw [bare_eq]; simp [advanceCursor, Execution.bare, Execution.countStep, order_eq],
        redoCount_eq, batchCount_eq⟩

/-- A wake-up with one evaluation does the same under optimistic control and without control, as
long as no window mixes versions. -/
theorem bare_wakeUp (tree_eq : plain.tree = controlled.tree)
    (controlled_mode : controlled.mode = .optimistic) (plain_mode : plain.mode = .uncontrolled)
    (single : execution.batchCount = 1)
    (optimistic : execution.world.catalog.access.mode = .optimistic)
    (different : ∀ operator ∈ controlled.order, ∀ input ∈ operator.inputs, input.id ≠ operator.id)
    (consistent : ∀ operator ∈ controlled.order,
      ∀ window ∈ execution.world.completedWindows operator, window.isConsistent = true) :
    plain.wakeUp execution.bare =
        ((controlled.wakeUp execution).1.bare, (controlled.wakeUp execution).2) ∧
      (controlled.wakeUp execution).1.metrics.redoCount = execution.metrics.redoCount ∧
      (controlled.wakeUp execution).1.batchCount = execution.batchCount := by
  have order_eq : plain.order = controlled.order := congrArg QueryTree.postOrder tree_eq
  cases next : controlled.order[execution.cursor]? with
  | none =>
      have plain_next : plain.order[execution.bare.cursor]? = none := order_eq ▸ next
      simp [wakeUp, next, plain_next]
  | some operator =>
      have plain_next : plain.order[execution.bare.cursor]? = some operator := order_eq ▸ next
      have member : operator ∈ controlled.order := List.mem_of_getElem? next
      have plain_role : plain.role operator.id = .none := by
        rw [role, plain_mode, CommitRole.of_uncontrolled]
      have undeferred : (controlled.role operator.id).defersClose = false := by
        rw [role, controlled_mode, CommitRole.of_optimistic_defersClose]
      have plain_single : execution.bare.batchCount = 1 := single
      rw [controlled.wakeUp_of_batchCount_eq_one single next,
        plain.wakeUp_of_batchCount_eq_one plain_single plain_next, plain_role]
      exact bare_conclude tree_eq controlled_mode plain_mode operator
        (World.mirrors_evaluate optimistic undeferred (different operator member)
          (consistent operator member))

/-- Other actions than wake-ups do not depend on precautions. -/
theorem bare_perform {action : Action} (external : ¬action.IsTurn) :
    plain.perform execution.bare action = (controlled.perform execution action).bare := by
  cases action with
  | arrive source tuple =>
      have arrives : (execution.world.modifyArrivals source (·.enqueue tuple)).bare =
          execution.world.bare.modifyArrivals source (·.enqueue tuple) := by
        refine execution.world.bare_modifyCell source fun cell => ?_
        simp only [Cell.bare]
        split <;> rfl
      exact (congrArg (fun world => { execution.bare with world }) arrives).symm
  | collect operator =>
      have clears : (execution.world.modifyOutput operator Channel.clear).bare =
          execution.world.bare.modifyOutput operator Channel.clear :=
        execution.world.bare_modifyOutput operator fun _ => rfl
      exact (congrArg (fun world => { execution.bare with world }) clears).symm
  | wakeUp => exact absurd trivial external
  | _ => rfl

end

end Schedule

end StreamQuery
