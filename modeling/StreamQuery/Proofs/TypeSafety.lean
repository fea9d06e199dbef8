import Mathlib.Data.List.Induction
import StreamQuery.Proofs.Engine.Typed

/-!
# Typed queries do not go wrong

A query that is built has looked up all names and computed all schemas. If the tuples that arrive
and the rows of the relations have the declared types, every tuple that an operator computes is one
of the schema of the operator, whatever the protocol and the interleaving, and the only thing that
can fail is the comparison of values of different types.
-/

namespace StreamQuery

/-! ## What is given from outside -/

/-- A tuple that arrives at a source of a tree is one of its schema, or ends the stream. -/
def Action.Conforms (tree : QueryTree) : Action → Prop
  | .arrive id tuple =>
    ∀ header, .source header ∈ tree.postOrder → header.id = id → tuple.Conforms header.schema
  | _ => True

/-- Throughout some actions, the rows of every relation are tuples of its schema. -/
def Deployment.RowsConform (deployment : Deployment) (actions : List Action) : Prop :=
  ∀ earlier, earlier <+: actions → ∀ place declared,
    deployment.query.relations[place]? = some declared →
    ∀ snapshot, deployment.snapshotAfter place earlier = some snapshot →
    ∀ row ∈ snapshot.rows, row.Fits declared.schema

/-- Rows that are loaded are tuples of the schema of the relation, and updates keep them so. -/
def Action.KeepsRows (relations : List RelationDeclaration) : Action → Prop
  | .load place row => ∀ declared, relations[place]? = some declared → row.Fits declared.schema
  | .update place change =>
    ∀ declared, relations[place]? = some declared → ∀ rows : List Tuple,
      (∀ row ∈ rows, row.Fits declared.schema) → ∀ row ∈ change rows, row.Fits declared.schema
  | _ => True

/-- Rows conform if every single change keeps them so. -/
theorem Deployment.rowsConform_of_keepsRows {deployment : Deployment} {actions : List Action}
    (keeps : ∀ action ∈ actions, action.KeepsRows deployment.query.relations) :
    deployment.RowsConform actions := by
  intro earlier is_earlier place declared is_declared snapshot snapshot_eq
  obtain ⟨relation, found, rfl⟩ := Option.map_eq_some_iff.mp snapshot_eq
  clear snapshot_eq
  induction earlier using List.reverseRecOn generalizing relation with
  | nil =>
      have start_found : deployment.start.world.relation? place = some relation := found
      rw [World.relation?, deployment.start_catalog] at start_found
      obtain rfl : _ = relation := by simpa [World.initial, is_declared] using start_found
      simp [Relation.snapshot]
  | append_singleton earlier action induction =>
      have is_before : earlier <+: actions := (List.prefix_append _ _).trans is_earlier
      have action_keeps := keeps action (is_earlier.subset (by simp))
      obtain ⟨before, before_found, _⟩ := Deployment.run_relation? is_declared earlier
      have before_fits := induction is_before before before_found
      rw [Deployment.run_append_singleton] at found
      cases action with
      | load changed row =>
          rcases World.changeRelation_relation? before_found changed _ with kept | ⟨rfl, grown⟩
          · obtain rfl := Option.some.inj (kept.symm.trans found)
            exact before_fits
          · obtain rfl := Option.some.inj (grown.symm.trans found)
            intro other member
            rcases List.mem_append.mp member with old | newest
            · exact before_fits other old
            · exact List.mem_singleton.mp newest ▸ action_keeps declared is_declared
      | update changed change =>
          rcases World.changeRelation_relation? before_found changed _ with kept | ⟨rfl, updated⟩
          · obtain rfl := Option.some.inj (kept.symm.trans found)
            exact before_fits
          · obtain rfl := Option.some.inj (updated.symm.trans found)
            exact action_keeps declared is_declared before.rows before_fits
      | wakeUp =>
          obtain ⟨later, later_found, same⟩ := (deployment.schedule.wakeUp_agrees
            (deployment.run earlier)).exists_relation before_found
          obtain rfl := Option.some.inj (later_found.symm.trans found)
          rwa [Relation.snapshot_eq same]
      | _ =>
          obtain rfl := Option.some.inj (before_found.symm.trans found)
          exact before_fits

/-! ## What operators compute -/

namespace World

/-- The tuples that wait at both sides of a join are received. -/
def joinTurn (world : World) (left right : Nat) (state : WindowJoin) : WindowJoin.Turn :=
  let (leftTuple?, afterLeft) := world.take left
  let rightTuple? := (afterLeft.take right).1
  ((leftTuple?.map (Side.left, ·)).toList ++ (rightTuple?.map (Side.right, ·)).toList).foldl
    WindowJoin.Turn.receive { join := state }

/-- The tuples that an operator may compute when it is evaluated, also those that are dropped
because the evaluation fails later on. -/
inductive Derives (world : World) : QueryTree → Tuple → Prop where
  | projected {header : OperatorHeader} {indices : List Nat} {input : QueryTree}
      {tuple result : Tuple} :
      (world.output input.id).peek? = some tuple → tuple.isEndOfStream = false →
      projectTuple indices header.schema tuple = .ok result →
      Derives world (.single header (.project indices) input) result
  | matched {header : OperatorHeader} {reference : RelationReference} {condition : Condition}
      {input : QueryTree} {tuple row : Tuple} {relation : Relation} {snapshot : Snapshot}
      {after : Catalog} {position : Nat} :
      (world.output input.id).peek? = some tuple → tuple.isEndOfStream = false →
      world.catalog.relations[reference.place]? = some relation →
      world.catalog.readRelation reference.place relation = (snapshot, after) →
      row ∈ snapshot.rows →
      Derives world (.single header (.combine reference condition) input)
        (matchTuple header.schema relation.id snapshot.version tuple row position)
  | aggregated {header : OperatorHeader} {window : Window} {function : AggregateFunction}
      {input : QueryTree} {contents : Contents} {result : Tuple} :
      contents ∈ world.completedWindows (.single header (.aggregate window function) input) →
      function.apply header.schema contents = .ok result →
      Derives world (.single header (.aggregate window function) input) result
  | paired {header : OperatorHeader} {logic : JoinLogic} {left right : QueryTree}
      {state : WindowJoin} {pair : Tuple × Tuple} {lowWater : Int} :
      (world.cells[header.id]?.bind fun cell => cell.memory.join?) = some state →
      pair ∈ (world.joinTurn left.id right.id state).join.candidates →
      Derives world (.join header logic left right)
        (WindowJoin.pair header.schema lowWater pair.1 pair.2)

variable {relations : List RelationDeclaration} {tree operator : QueryTree} {world : World}

theorem IsTyped.peek (typed : world.IsTyped relations tree) {input : QueryTree}
    (member : input ∈ tree.postOrder) {tuple : Tuple}
    (waits : (world.output input.id).peek? = some tuple) : tuple.Conforms input.schema := by
  obtain ⟨cell, found, cell_typed⟩ := typed.cells input member
  rw [output_of_getElem? found] at waits
  exact cell_typed.output.queue tuple (List.mem_of_head? waits)

/-- A window is completed by the tuple that waits. -/
theorem exists_of_mem_completedWindows {header : OperatorHeader} {window : Window}
    {function : AggregateFunction} {input : QueryTree} {contents : Contents}
    (completed : contents ∈
      world.completedWindows (.single header (.aggregate window function) input)) :
    ∃ tuple aggregation, (world.output input.id).peek? = some tuple ∧
      tuple.isEndOfStream = false ∧
      (world.cells[header.id]?.bind fun cell => cell.memory.aggregation?) = some aggregation ∧
      contents ∈ (aggregation.synopsis.enqueue tuple).2 := by
  simp only [completedWindows] at completed
  split at completed
  · cases completed
  · split at completed
    · rename_i tuple aggregation waits remembered
      split at completed
      · cases completed
      · rename_i data
        exact ⟨tuple, aggregation, waits, by simpa using data, remembered, completed⟩
    · cases completed

/-- What is computed in a typed world are tuples of the schema of the operator. -/
theorem IsTyped.derives_fits (typed : world.IsTyped relations tree)
    (member : operator ∈ tree.postOrder) (resolved : operator.IsResolved relations) {tuple : Tuple}
    (derives : world.Derives operator tuple) : tuple.Fits operator.schema := by
  have input_mem {input : QueryTree} (is_input : input ∈ operator.inputs) :=
    QueryTree.input_mem_postOrder member is_input
  cases derives with
  | projected waits data projected =>
      obtain ⟨known, schema_eq⟩ := resolved
      have fits := typed.peek (input_mem List.mem_cons_self) waits data
      obtain ⟨result, projected', result_fits⟩ := projectTuple_of_fits fits known schema_eq
      cases projected.symm.trans projected'
      exact result_fits
  | matched waits data found read row_mem =>
      obtain ⟨declared, is_declared, _, schema_eq⟩ := resolved
      have fits := typed.peek (input_mem List.mem_cons_self) waits data
      obtain ⟨rows_fit, _⟩ := typed.catalog.readRelation is_declared found read
      exact matchTuple_fits schema_eq fits (rows_fit _ row_mem) _ _ _
  | aggregated completed computed =>
      obtain ⟨tuple, aggregation, waits, data, remembered, reported⟩ :=
        exists_of_mem_completedWindows completed
      have fits := typed.peek (input_mem List.mem_cons_self) waits data
      obtain ⟨cell, found, aggregation_eq⟩ := Option.bind_eq_some_iff.mp remembered
      obtain ⟨cell', found', cell_typed⟩ := typed.cells _ member
      obtain rfl := Option.some.inj (found'.symm.trans found)
      obtain ⟨aggregation', memory_eq, held_fit⟩ := cell_typed.memory.exists_aggregation
      obtain rfl : aggregation' = aggregation := by
        simpa [memory_eq, Memory.aggregation?] using aggregation_eq
      obtain ⟨result, computed', result_fits⟩ := AggregateFunction.apply_of_fits resolved
        (fun other inside => (Synopsis.mem_enqueue_window reported inside).elim (held_fit other)
          fun same => same ▸ fits)
        (Synopsis.tuples_ne_nil_of_mem_enqueue reported)
      cases computed.symm.trans computed'
      exact result_fits
  | paired remembered candidate =>
      obtain ⟨_, schema_eq⟩ := resolved
      obtain ⟨cell, found, state_eq⟩ := Option.bind_eq_some_iff.mp remembered
      obtain ⟨cell', found', cell_typed⟩ := typed.cells _ member
      obtain rfl := Option.some.inj (found'.symm.trans found)
      obtain ⟨state', memory_eq, held_fit⟩ := cell_typed.memory.exists_join
      obtain rfl : state' = _ := by
        simpa [memory_eq, Memory.join?] using state_eq
      obtain ⟨conform, _⟩ := typed.take_both (input_mem List.mem_cons_self)
        (input_mem (List.mem_cons_of_mem _ List.mem_cons_self)) rfl rfl
      have received := (WindowJoin.Turn.IsTyped.of_join held_fit).foldl_receive conform
      obtain ⟨left_fits, right_fits⟩ := received.candidates_fit candidate
      exact WindowJoin.pair_fits schema_eq left_fits right_fits _

end World

/-! ## The cursor -/

namespace Schedule

variable {schedule : Schedule} {execution : Execution}

theorem evaluateBatch_cursor (schedule : Schedule) (operator : QueryTree) (count : Nat)
    (execution : Execution) :
    (schedule.evaluateBatch operator count execution).1.cursor = execution.cursor := by
  induction count generalizing execution with
  | zero => rfl
  | succ count induction =>
      rw [evaluateBatch]
      split
      · rfl
      · simp only
        split
        · rfl
        · exact induction _

/-- A response goes back to the first operator or leaves the next one as it is. -/
theorem react_cursor (schedule : Schedule) (execution : Execution) (step : Step) :
    (schedule.react execution step).cursor = 0 ∨
      (schedule.react execution step).cursor = execution.cursor := by
  rw [react]
  cases schedule.mode with
  | uncontrolled => exact .inr rfl
  | optimistic =>
      cases step with
      | lostConsistency committed? =>
          left
          cases committed? <;> rfl
      | _ => exact .inr rfl
  | _ =>
      right
      cases step with
      | pendingAbort waiting =>
          simp only [reactPessimistically, endTransaction]
          split
          · split <;> rfl
          · rfl
      | _ => rfl

/-- The operator that is next is one of the tree. -/
theorem perform_cursor_lt (next : execution.cursor < schedule.order.length) (action : Action) :
    (schedule.perform execution action).cursor < schedule.order.length := by
  have nonempty : 0 < schedule.order.length := Nat.zero_lt_of_lt next
  cases action with
  | wakeUp =>
      simp only [perform, wakeUp]
      split
      · exact next
      · rename_i operator _
        have advanced : (schedule.advanceCursor execution).cursor < schedule.order.length :=
          Nat.mod_lt _ nonempty
        have batch := schedule.evaluateBatch_cursor operator execution.batchCount
          (schedule.advanceCursor execution)
        split
        · rename_i after _ evaluated
          rw [evaluated] at batch
          exact batch ▸ advanced
        · rename_i after step evaluated
          rw [evaluated] at batch
          rcases schedule.react_cursor after step with restarted | kept
          · exact restarted ▸ nonempty
          · rw [kept]
            exact batch ▸ advanced
  | _ => exact next

theorem performAll_cursor_lt (next : execution.cursor < schedule.order.length)
    (actions : List Action) :
    (schedule.performAll execution actions).cursor < schedule.order.length := by
  induction actions generalizing execution with
  | nil => exact next
  | cons action actions induction => exact induction (perform_cursor_lt next action)

end Schedule

/-! ## Runs -/

/-- A world in which the operators of a deployment can do their work. -/
abbrev Deployment.IsTypedIn (deployment : Deployment) (world : World) : Prop :=
  world.IsTyped deployment.query.relations deployment.tree

/-- The world is typed, and so was every world in which an operator was evaluated. -/
structure TypedHistory (deployment : Deployment) (log : List Firing) (world : World) : Prop where
  /-- The world as it is. -/
  typed : deployment.IsTypedIn world
  /-- The worlds as they were. -/
  fired : ∀ firing ∈ log, firing.operator ∈ deployment.tree.postOrder ∧
    deployment.IsTypedIn firing.before ∧
    firing.after =
      (firing.before.evaluate (deployment.schedule.role firing.operator.id) firing.operator).1

namespace TypedHistory

variable {deployment : Deployment} {log : List Firing} {world : World}

theorem evaluate_goesWell {operator : QueryTree} (typed : deployment.IsTypedIn world)
    (member : operator ∈ deployment.tree.postOrder) :
    GoesWell deployment.IsTypedIn
      (world.evaluate (deployment.schedule.role operator.id) operator) :=
  typed.evaluate deployment.ids_nodup member (deployment.isResolved member) _

theorem fire (history : TypedHistory deployment log world) {operator : QueryTree}
    (member : operator ∈ deployment.tree.postOrder) :
    TypedHistory deployment (log ++ [deployment.schedule.fire operator world])
      (world.evaluate (deployment.schedule.role operator.id) operator).1 := by
  refine ⟨(evaluate_goesWell history.typed member).typed, fun firing firing_mem => ?_⟩
  rcases List.mem_append.mp firing_mem with old | newest
  · exact history.fired firing old
  · obtain rfl := List.mem_singleton.mp newest
    exact ⟨member, history.typed, rfl⟩

theorem preserves (deployment : Deployment) :
    deployment.schedule.Preserves (fun _ => False) (TypedHistory deployment) := by
  refine ⟨fun log world operator after error member history evaluated => ?_,
    fun log world operator after step execution member history evaluated world_eq => ?_,
    fun _ _ _ impossible => impossible.elim⟩
  · have fired := history.fire (deployment.order_eq ▸ member)
    rwa [evaluated] at fired
  · have fired := history.fire (deployment.order_eq ▸ member)
    rw [evaluated, ← world_eq] at fired
    refine ⟨fired.typed.react (fun other other_mem => ?_) step, fired.fired⟩
    exact deployment.isResolved (deployment.order_eq ▸ other_mem)

theorem start (deployment : Deployment) : TypedHistory deployment [] deployment.start.world := by
  have access_eq :
      deployment.start.world.catalog.access = { mode := deployment.schedule.mode } := by
    rw [deployment.start_catalog]
    rfl
  refine ⟨⟨?_, fun place declared is_declared => ?_, ?_, ?_⟩, by simp⟩
  · intro operator member
    exact ⟨_, deployment.getElem?_start member, ⟨by simp, by simp⟩, Memory.isTyped_initial operator⟩
  · refine ⟨{ id := place, name := declared.name, schema := declared.schema }, ?_, rfl, by simp⟩
    rw [deployment.start_catalog]
    simp [World.initial, is_declared]
  · simp [access_eq]
  · simp [access_eq]

/-- What arrives is typed, and relations are changed so that their rows still fit. -/
theorem act {execution : Execution} (history : TypedHistory deployment log execution.world)
    {action : Action} (external : ¬action.IsTurn) (arrives : action.Conforms deployment.tree)
    (rows : (deployment.schedule.perform execution action).world.catalog.RowsFit
      deployment.query.relations) :
    TypedHistory deployment log (deployment.schedule.perform execution action).world := by
  have catalog := history.typed.catalog
  refine ⟨?_, history.fired⟩
  cases action with
  | arrive source tuple =>
      refine ⟨history.typed.cells.modifyCell fun operator member same cell _ typed => ?_, catalog⟩
      split
      · rename_i arrivals memory_eq
        have remembered : (Memory.source arrivals).IsTyped operator := memory_eq ▸ typed.memory
        refine typed.remember _ ?_
        cases operator with
        | source header =>
            have arriving : ∀ other ∈ [tuple], other.Conforms header.schema := by
              simpa using arrives header member same
            exact Channel.Conforms.enqueueAll remembered arriving
        | single header logic input => cases logic <;> exact remembered.elim
        | join header logic left right => exact remembered.elim
      · exact typed
  | load place row =>
      exact ⟨history.typed.cells.of_cells_eq rfl, ⟨rows, catalog.held, catalog.copies⟩⟩
  | update place change =>
      exact ⟨history.typed.cells.of_cells_eq rfl, ⟨rows, catalog.held, catalog.copies⟩⟩
  | collect operator =>
      exact ⟨history.typed.cells.modifyOutput fun _ cell typed =>
        typed.of_shrinks (Channel.shrinks_clear cell.output), catalog⟩
  | setBatchCount count => exact history.typed
  | wakeUp => exact absurd trivial external

/-- A run on what conforms is typed throughout. -/
theorem of_run {actions : List Action}
    (arrive : ∀ action ∈ actions, action.Conforms deployment.tree)
    (rows : deployment.RowsConform actions) :
    TypedHistory deployment (deployment.trace actions) (deployment.run actions).world := by
  induction actions using List.reverseRecOn with
  | nil => exact start deployment
  | append_singleton earlier action induction =>
      have history := induction (fun other member => arrive other (by simp [member]))
        fun part is_part => rows part (is_part.trans (List.prefix_append _ _))
      rw [Deployment.trace_append_singleton, Deployment.run_append_singleton]
      by_cases is_turn : action.IsTurn
      · cases action with
        | wakeUp => exact (preserves deployment).turn history
        | _ => cases is_turn
      · rw [Schedule.actionFirings_of_external _ _ is_turn, List.append_nil]
        refine history.act is_turn (arrive action (by simp)) fun place declared is_declared => ?_
        rw [← Deployment.run_append_singleton]
        obtain ⟨relation, found, id_eq, _⟩ :=
          Deployment.run_relation? is_declared (earlier ++ [action])
        exact ⟨relation, found, id_eq, rows _ (List.prefix_refl _) place declared is_declared
          relation.snapshot (by rw [Deployment.snapshotAfter, found]; rfl)⟩

end TypedHistory

/-! ## Failures -/

variable {deployment : Deployment} {actions : List Action}

theorem evaluateBatch_error {operator : QueryTree} (member : operator ∈ deployment.tree.postOrder)
    {count : Nat} {execution : Execution} (typed : deployment.IsTypedIn execution.world)
    {error : ControlError}
    (failed : (deployment.schedule.evaluateBatch operator count execution).2 = .error error) :
    ∃ cause : OperatorError, cause.IsComparison ∧ error = .evaluation operator.name cause := by
  induction count generalizing execution with
  | zero => cases failed
  | succ count induction =>
      have goes_well := TypedHistory.evaluate_goesWell typed member
      rw [Schedule.evaluateBatch] at failed
      split at failed
      · rename_i world cause evaluated
        cases failed
        exact ⟨cause, goes_well.error cause (by rw [evaluated]), rfl⟩
      · rename_i world step evaluated
        rw [evaluated] at goes_well
        simp only at failed
        split at failed
        · cases failed
        · exact induction goes_well.typed failed

/-- A turn that starts from a typed world fails only by a comparison. -/
theorem wakeUp_error {execution : Execution} (typed : deployment.IsTypedIn execution.world)
    (next : execution.cursor < deployment.schedule.order.length) {error : ControlError}
    (failed : (deployment.schedule.wakeUp execution).2 = .error error) :
    ∃ operator ∈ deployment.tree.postOrder, ∃ cause : OperatorError, cause.IsComparison ∧
      error = .evaluation operator.name cause := by
  rw [Schedule.wakeUp, List.getElem?_eq_getElem next] at failed
  have member : deployment.schedule.order[execution.cursor] ∈ deployment.tree.postOrder :=
    deployment.order_eq ▸ List.getElem_mem next
  generalize deployment.schedule.order[execution.cursor] = operator at failed member
  simp only at failed
  split at failed
  · rename_i after cause evaluated
    cases failed
    have started : deployment.IsTypedIn (deployment.schedule.advanceCursor execution).world := typed
    exact ⟨operator, member, evaluateBatch_error member started (congrArg Prod.snd evaluated)⟩
  · cases failed

theorem run_cursor_lt (deployment : Deployment) (actions : List Action) :
    (deployment.run actions).cursor < deployment.schedule.order.length := by
  have is_found : deployment.start.cursor < deployment.schedule.order.length := by
    rw [deployment.order_eq]
    exact List.length_pos_of_mem (QueryTree.self_mem_postOrder deployment.tree)
  exact Schedule.performAll_cursor_lt is_found actions

/-- When the tuples that arrive and the rows of the relations have the declared types, then in every
run under every protocol all tuples that operators compute and send are tuples of their schemas, an
evaluation fails only by a comparison of values of different types, a turn of the scheduler only by
such a failure, and all operators are found at their places. -/
theorem typed_run_goes_well (deployment : Deployment) {actions : List Action}
    (arrive : ∀ action ∈ actions, action.Conforms deployment.tree)
    (rows : deployment.RowsConform actions) :
    (∀ firing ∈ deployment.trace actions,
      (∀ result, firing.before.Derives firing.operator result →
        result.Fits firing.operator.schema) ∧
      (∀ result ∈ firing.sent, result.Conforms firing.operator.schema) ∧
      ∀ error, (firing.before.evaluate (deployment.schedule.role firing.operator.id)
        firing.operator).2 = .error error → error.IsComparison) ∧
    (∀ error, (deployment.schedule.wakeUp (deployment.run actions)).2 = .error error →
      ∃ operator ∈ deployment.tree.postOrder, ∃ cause : OperatorError, cause.IsComparison ∧
        error = .evaluation operator.name cause) ∧
    (deployment.run actions).cursor < deployment.schedule.order.length ∧
    ∀ operator ∈ deployment.tree.postOrder,
      ∀ place ∈ operator.id :: operator.inputs.map QueryTree.id,
        place < (deployment.run actions).world.cells.length := by
  have history := TypedHistory.of_run arrive rows
  have cursor_lt := run_cursor_lt deployment actions
  have found (operator : QueryTree) (member : operator ∈ deployment.tree.postOrder) :
      operator.id < (deployment.run actions).world.cells.length := by
    obtain ⟨cell, cell_found, _⟩ := history.typed.cells operator member
    exact (List.getElem?_eq_some_iff.mp cell_found).1
  refine ⟨fun firing firing_mem => ?_, fun error => wakeUp_error history.typed cursor_lt,
    cursor_lt, fun operator member place is_place => ?_⟩
  · obtain ⟨member, before_typed, after_eq⟩ := history.fired firing firing_mem
    have goes_well := TypedHistory.evaluate_goesWell before_typed member
    refine ⟨fun result => before_typed.derives_fits member (deployment.isResolved member),
      fun result sent => ?_, goes_well.error⟩
    obtain ⟨cell, cell_found, cell_typed⟩ := goes_well.typed.cells firing.operator member
    rw [Firing.sent, after_eq, World.output_of_getElem? cell_found] at sent
    exact cell_typed.output.queue result (List.mem_of_mem_drop sent)
  · rcases List.mem_cons.mp is_place with rfl | is_input
    · exact found operator member
    · obtain ⟨input, input_mem, rfl⟩ := List.mem_map.mp is_input
      exact found input (QueryTree.input_mem_postOrder member input_mem)

/-- Goods are looked up by labels, which are texts. -/
def mislabelledDeclarations : List Declaration :=
  [.relation { name := "labels", schema := ⟨[{ name := "label", type := .string }]⟩ },
    .operator "sales" (.stream goodsSchema),
    .operator "labelled" (.combine "sales" "labels" (.attributes "goods" .equal "label")),
    .operator "mean" (.mean "labelled" "goods" (.rows 1 1))]

/-- The names are all known, so the query is accepted. -/
def mislabelled : Deployment :=
  (Deployment.ofDeclarations? mislabelledDeclarations "mean" (.ofMode .uncontrolled)).get
    (by decide)

/-- A label that is a text. -/
def textLabel : Tuple where
  kind := .data
  schema := ⟨[{ name := "label", type := .string }]⟩
  values := [.string "1"]
  arrival := 0
  lowWater := 0
  stamps := {}
  lineage := .arrival 0

/-- One sale is about to meet the label. -/
def mislabelledActions : List Action :=
  [.load 0 textLabel, .arrive 0 (.ofInts goodsSchema [1] 0), .wakeUp]

theorem mislabelledActions_keepRows :
    ∀ action ∈ mislabelledActions, action.KeepsRows mislabelled.query.relations := by
  simp only [mislabelledActions, List.forall_mem_cons]
  refine ⟨fun declared is_declared => ?_, trivial, trivial, List.forall_mem_nil _⟩
  obtain rfl := Option.some.inj (Eq.trans (by rfl) is_declared)
  exact ⟨rfl, rfl⟩

theorem mislabelledSales_mem_postOrder :
    .source { id := 0, name := "sales", schema := goodsSchema } ∈ mislabelled.tree.postOrder :=
  List.mem_cons_self

/-- The comparison of a number with a text is what goes wrong. -/
theorem mislabelled_run_goes_well :
    ((∀ action ∈ mislabelledActions, action.Conforms mislabelled.tree) ∧
      mislabelled.RowsConform mislabelledActions ∧
      (mislabelled.schedule.wakeUp (mislabelled.run mislabelledActions)).2 =
        .error (.evaluation "labelled" (.operation (.typeMismatch .compare .int .string)))) ∧
      ∃ operator ∈ mislabelled.tree.postOrder, ∃ cause : OperatorError, cause.IsComparison ∧
        ControlError.evaluation "labelled" (.operation (.typeMismatch .compare .int .string)) =
          .evaluation operator.name cause := by
  have conform : ∀ action ∈ mislabelledActions, action.Conforms mislabelled.tree := by
    simp only [mislabelledActions, List.forall_mem_cons]
    refine ⟨trivial, fun header member id_eq _ => ?_, trivial, List.forall_mem_nil _⟩
    have schema_eq : header.schema = goodsSchema := by
      have same := mislabelled.eq_of_id_eq member mislabelledSales_mem_postOrder id_eq
      exact congrArg QueryTree.schema same
    exact ⟨schema_eq.symm, by rw [schema_eq]; rfl⟩
  have rows := Deployment.rowsConform_of_keepsRows mislabelledActions_keepRows
  have failed : (mislabelled.schedule.wakeUp (mislabelled.run mislabelledActions)).2 =
      .error (.evaluation "labelled" (.operation (.typeMismatch .compare .int .string))) := rfl
  exact ⟨⟨conform, rows, failed⟩, (typed_run_goes_well mislabelled conform rows).2.1 _ failed⟩

end StreamQuery
