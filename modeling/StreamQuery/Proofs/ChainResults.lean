import StreamQuery.Proofs.Chain.Relays
import StreamQuery.Proofs.Engine.Responses
import StreamQuery.Proofs.Pipeline.Runs

/-!
# Results of chains

Without control a chain computes its reference results: in whatever order its operators are
evaluated, and however many evaluations a wake-up makes, the results so far are a prefix of what the
arrivals so far amount to, and they are all of it once no tuple waits.
-/

namespace StreamQuery

/-- What may happen to a chain while it runs: tuples arrive, turns are taken, and results of the
root are taken away. -/
def Action.Feeds (root : Nat) : Action → Prop
  | .arrive _ _ => True
  | .load _ _ => False
  | .update _ _ => False
  | .collect operator => operator = root
  | .setBatchCount _ => True
  | .wakeUp => True

instance (root : Nat) : DecidablePred (Action.Feeds root)
  | .arrive _ _ => .isTrue trivial
  | .load _ _ => .isFalse id
  | .update _ _ => .isFalse id
  | .collect operator => inferInstanceAs (Decidable (operator = root))
  | .setBatchCount _ => .isTrue trivial
  | .wakeUp => .isTrue trivial

variable {deployment : Deployment} {relations : List Relation} {arrived : List Tuple}
  {log : List Firing} {world : World} {execution : Execution}

/-! ## Arrivals -/

/-- A tuple that arrives waits at the source. -/
theorem Relays.arrive {operator : QueryTree}
    (relays : Relays relations arrived log world operator) (source : Nat) (tuple : Tuple)
    {place : Nat} (at_place : ∀ header, operator = .source header → header.id = place) :
    Relays relations (arrived ++ arrivalsAt place [.arrive source tuple]) log
      (world.modifyArrivals source (·.enqueue tuple)) operator := by
  cases operator with
  | source header =>
      obtain rfl := at_place header rfl
      obtain ⟨arrivals, remembered, rfl⟩ := relays
      rcases World.memory?_modifyArrivals world source (·.enqueue tuple) header.id with
        ⟨same, other⟩ | ⟨rfl, found, found_eq, changed⟩
      · have elsewhere : source ≠ header.id := fun is_source =>
          other is_source.symm arrivals remembered
        have no_arrival : arrivalsAt header.id [.arrive source tuple] = [] :=
          arrivalsAt_of_no_arrival (if_neg elsewhere)
        rw [no_arrival, List.append_nil]
        exact ⟨arrivals, same.trans remembered, rfl⟩
      · obtain rfl : arrivals = found := by simpa using remembered.symm.trans found_eq
        exact ⟨_, changed, by rw [arrivalsAt_arrive, List.append_assoc]; rfl⟩
  | single header logic input =>
      obtain ⟨taken, memory, remembered, remembers, input_eq, transform_eq⟩ := relays
      rcases World.memory?_modifyArrivals world source (·.enqueue tuple) header.id with
        ⟨same, _⟩ | ⟨_, found, found_eq, _⟩
      · refine ⟨taken, memory, same.trans remembered, remembers, ?_, transform_eq⟩
        rwa [World.output_modifyArrivals]
      · -- Only a source remembers arrivals.
        obtain rfl : memory = .source found := by simpa using remembered.symm.trans found_eq
        cases remembers
  | join header logic left right => exact relays

namespace RelaysAll

/-! ## Turns -/

/-- All operators relay after one of them was evaluated. -/
theorem fire (all : RelaysAll deployment.tree relations arrived log world)
    (uncontrolled : deployment.config.mode = .uncontrolled) {operator : QueryTree}
    (member : operator ∈ deployment.tree.postOrder) :
    RelaysAll deployment.tree relations arrived
      (log ++ [deployment.schedule.fire operator world])
      (deployment.schedule.fire operator world).after := by
  have role_eq : deployment.schedule.role operator.id = .none := by
    rw [Schedule.role, deployment.mode_eq, uncontrolled, CommitRole.of_uncontrolled]
  obtain ⟨relays, catalog_eq, taken, taken_inputs, memory, sends⟩ :=
    (all.each operator member).fires role_eq (deployment.input_id_ne member) all.uncontrolled
      all.relations_eq
  refine ⟨by rw [catalog_eq]; exact all.uncontrolled, by rw [catalog_eq]; exact all.relations_eq,
    fun other other_mem => ?_⟩
  by_cases same : other = operator
  · exact same ▸ relays
  have id_ne : other.id ≠ operator.id := fun id_eq =>
    same (deployment.eq_of_id_eq other_mem member id_eq)
  refine (all.each other other_mem).frame (sends.memories other.id id_ne)
    (Firing.sentBy_append_of_ne log id_ne.symm) fun input is_input => ?_
  by_cases is_operator : input.id = operator.id
  · -- The other operator is the one that the results are sent to.
    refine ⟨(deployment.schedule.fire operator world).sent, ?_, ?_⟩
    · rw [is_operator, sends.self, Channel.enqueueAll_queue]
      rfl
    · rw [is_operator]
      exact Firing.sentBy_append_self log (deployment.schedule.fire operator world)
  · -- An operator has one consumer, so the other one reads nothing that was taken from.
    have untouched : input.id ∉ taken := fun inside => by
      obtain ⟨own, own_input, id_eq⟩ := List.mem_map.mp (taken_inputs inside)
      have in_tree {consumer read : QueryTree} (inside : consumer ∈ deployment.tree.postOrder)
          (reads : read ∈ consumer.inputs) := QueryTree.input_mem_postOrder inside reads
      obtain rfl := deployment.eq_of_id_eq (in_tree member own_input) (in_tree other_mem is_input)
        id_eq
      have in_query {consumer : QueryTree} (inside : consumer ∈ deployment.tree.postOrder) :=
        (deployment.forest.mem_of_mem_postOrder deployment.tree_mem inside).1
      exact same (deployment.forest.consumer_unique (in_query other_mem) (in_query member) is_input
        own_input)
    refine ⟨[], ?_, ?_⟩
    · rw [sends.others input.id is_operator untouched, List.append_nil]
      rfl
    · rw [Firing.sentBy_append_of_ne log (Ne.symm is_operator), List.append_nil]

/-- All operators relay after a turn of the scheduler. -/
theorem turn (all : RelaysAll deployment.tree relations arrived log execution.world)
    (uncontrolled : deployment.config.mode = .uncontrolled) :
    RelaysAll deployment.tree relations arrived (log ++ deployment.schedule.firings execution)
      (deployment.schedule.wakeUp execution).1.world := by
  have preserves : deployment.schedule.Preserves (fun _ => False)
      (RelaysAll deployment.tree relations arrived) := by
    refine ⟨fun log world operator next error member all evaluated => ?_,
      fun log world operator next step following member all evaluated world_eq => ?_,
      fun _ _ _ impossible => impossible.elim⟩
    · have fired := all.fire uncontrolled (deployment.order_eq ▸ member)
      have after_eq : (deployment.schedule.fire operator world).after = next :=
        congrArg Prod.fst evaluated
      rwa [after_eq] at fired
    · have fired := all.fire uncontrolled (deployment.order_eq ▸ member)
      have after_eq : (deployment.schedule.fire operator world).after = following.world :=
        (congrArg Prod.fst evaluated).trans world_eq.symm
      rw [after_eq] at fired
      rwa [Schedule.react, deployment.mode_eq, uncontrolled]
  exact preserves.turn all

/-! ## Runs -/

/-- What nothing is sent by leaves all operators as they are. -/
theorem of_eq (all : RelaysAll deployment.tree relations arrived log world) {after : World}
    (catalog_eq : after.catalog = world.catalog)
    (memory_eq : ∀ id, after.memory? id = world.memory? id)
    (output_eq : ∀ operator ∈ deployment.tree.postOrder, ∀ input ∈ operator.inputs,
      after.output input.id = world.output input.id) :
    RelaysAll deployment.tree relations arrived log after where
  uncontrolled := by rw [catalog_eq]; exact all.uncontrolled
  relations_eq := by rw [catalog_eq]; exact all.relations_eq
  each operator member :=
    (all.each operator member).of_eq (memory_eq operator.id) (output_eq operator member)

/-- Results of the root can be taken away. -/
theorem collect (all : RelaysAll deployment.tree relations arrived log world) :
    RelaysAll deployment.tree relations arrived log
      (world.modifyOutput deployment.tree.id Channel.clear) := by
  refine all.of_eq rfl (World.memory?_modifyOutput world deployment.tree.id · Channel.clear)
    fun operator member input is_input => World.output_modifyCell_of_ne world (fun id_eq => ?_) _
  exact deployment.forest.input_ne_root deployment.tree_mem member is_input
    (deployment.eq_of_id_eq (QueryTree.input_mem_postOrder member is_input)
      (QueryTree.self_mem_postOrder _) id_eq)

/-- All operators relay after one more action. -/
theorem perform (all : RelaysAll deployment.tree relations arrived log execution.world)
    (uncontrolled : deployment.config.mode = .uncontrolled)
    (chain : deployment.tree.isChain = true) {action : Action}
    (feeds : action.Feeds deployment.tree.id) :
    RelaysAll deployment.tree relations
      (arrived ++ arrivalsAt deployment.tree.sourceId [action])
      (log ++ deployment.schedule.actionFirings execution action)
      (deployment.schedule.perform execution action).world := by
  cases action with
  | arrive source tuple =>
      rw [Schedule.actionFirings_of_external _ _ id, List.append_nil]
      refine ⟨all.uncontrolled, all.relations_eq, fun operator member => ?_⟩
      exact (all.each operator member).arrive source tuple fun header is_source =>
        QueryTree.id_eq_sourceId chain (is_source ▸ member)
  | load place row => exact feeds.elim
  | update place change => exact feeds.elim
  | collect operator =>
      obtain rfl : operator = deployment.tree.id := feeds
      rw [Schedule.actionFirings_of_external _ _ id, List.append_nil,
        arrivalsAt_of_no_arrival rfl, List.append_nil]
      exact all.collect
  | setBatchCount count =>
      rw [Schedule.actionFirings_of_external _ _ id, List.append_nil,
        arrivalsAt_of_no_arrival rfl, List.append_nil]
      exact all
  | wakeUp =>
      rw [arrivalsAt_of_no_arrival rfl, List.append_nil]
      exact all.turn uncontrolled

variable {loading actions : List Action}

/-- Before anything arrives, no operator has sent anything. -/
theorem of_loading (uncontrolled : deployment.config.mode = .uncontrolled)
    (chain : deployment.tree.isChain = true)
    (changes : ∀ action ∈ loading, action.ChangesRelations) :
    RelaysAll deployment.tree (deployment.run loading).world.catalog.relations []
      (deployment.trace loading) (deployment.run loading).world := by
  obtain ⟨cells_eq, _, trace_eq⟩ :=
    Schedule.performAll_of_changesRelations changes deployment.start
  have found {operator : QueryTree} (member : operator ∈ deployment.tree.postOrder) :=
    deployment.getElem?_start member
  rw [← cells_eq] at found
  rw [Deployment.trace, trace_eq]
  refine ⟨(deployment.run_mode loading).trans uncontrolled, rfl, fun operator member => ?_⟩
  have remembered := World.memory?_of_getElem? (found member)
  cases operator with
  | source header => exact ⟨_, remembered, rfl⟩
  | single header logic input =>
      have input_mem := QueryTree.input_mem_postOrder member
        (show input ∈ (QueryTree.single header logic input).inputs by simp [QueryTree.inputs])
      refine ⟨[], _, remembered, remembers_initial header logic input, ?_, ?_⟩
      · exact congrArg Channel.queue (World.output_of_getElem? (found input_mem))
      · rw [logic.transform_nil]
        rfl
  | join header logic left right => exact QueryTree.join_notMem_postOrder chain member

/-- All operators of a chain relay throughout a run. -/
theorem of_run (uncontrolled : deployment.config.mode = .uncontrolled)
    (chain : deployment.tree.isChain = true)
    (changes : ∀ action ∈ loading, action.ChangesRelations)
    (feeds : ∀ action ∈ actions, action.Feeds deployment.tree.id) :
    RelaysAll deployment.tree (deployment.run loading).world.catalog.relations
      (arrivalsAt deployment.tree.sourceId actions) (deployment.trace (loading ++ actions))
      (deployment.run (loading ++ actions)).world := by
  induction actions using List.reverseRecOn with
  | nil =>
      rw [List.append_nil]
      exact of_loading uncontrolled chain changes
  | append_singleton earlier action induction =>
      have all := induction fun other member => feeds other (List.mem_append_left _ member)
      rw [← List.append_assoc, Deployment.trace_append_singleton, Deployment.run_append_singleton,
        arrivalsAt_append]
      exact all.perform uncontrolled chain (feeds action (by simp))

end RelaysAll

/-- Without control, and while the relations stay as they were loaded, the results of a chain are
those of one function of its arrivals. After any sequence of arrivals and turns, with any number of
evaluations in each turn, the root has sent a prefix of what the function computes from the arrivals
so far, and all of it if nothing waits at the source or between operators. -/
theorem chain_results_eq_reference (deployment : Deployment)
    (uncontrolled : deployment.config.mode = .uncontrolled)
    (chain : deployment.tree.isChain = true) {loading actions : List Action}
    (changes : ∀ action ∈ loading, action.ChangesRelations)
    (feeds : ∀ action ∈ actions, action.Feeds deployment.tree.id) :
    deployment.sentBy deployment.tree.id (loading ++ actions) <+:
        deployment.tree.reference (deployment.run loading).world.catalog.relations
          (arrivalsAt deployment.tree.sourceId actions) ∧
      ((deployment.run (loading ++ actions)).world.IsDrained deployment.tree →
        deployment.sentBy deployment.tree.id (loading ++ actions) =
          deployment.tree.reference (deployment.run loading).world.catalog.relations
            (arrivalsAt deployment.tree.sourceId actions)) := by
  have all := RelaysAll.of_run uncontrolled chain changes feeds
  exact ⟨prefix_of_relays all.each, eq_of_relays all.each⟩

/-- Prices of known goods are averaged over time, and of every two means the later one is taken. -/
def quotedDeclarations : List Declaration :=
  [.relation { name := "prices", schema := priceSchema },
    .operator "sales" (.stream goodsSchema),
    .operator "known" (.select "sales" (.constant "goods" .greater (.int 0))),
    .operator "priced" (.combine "known" "prices" (.attributes "goods" .equal "id")),
    .operator "quotes" (.project "priced" ["price"]),
    .operator "mean" (.mean "quotes" "price" (.time 2 2)),
    .operator "latest" (.elect "mean" (.rows 2 1))]

/-- A chain with all kinds of operators, without control. -/
def quotedUncontrolled : Deployment :=
  (Deployment.ofDeclarations? quotedDeclarations "latest" (.ofMode .uncontrolled)).get (by decide)

/-- Two goods have prices. -/
def quotedLoading : List Action :=
  [.load 0 (.ofInts priceSchema [1, 10] 0), .load 0 (.ofInts priceSchema [2, 20] 0)]

/-- Sales, one of them unknown, arrive between wake-ups of different sizes. The stream goes on after
a marker. -/
def quotedSales : List Action :=
  [.arrive 0 (.ofInts goodsSchema [1] 0), .arrive 0 (.ofInts goodsSchema [0] 1), .wakeUp, .wakeUp,
    .arrive 0 (.ofInts goodsSchema [2] 3), .setBatchCount 3] ++
    List.replicate 4 .wakeUp ++
    [.arrive 0 (.endOfStream goodsSchema 4), .arrive 0 (.ofInts goodsSchema [1] 6),
      .arrive 0 (.ofInts goodsSchema [1] 9)] ++
    List.replicate 12 .wakeUp

set_option maxRecDepth 10000 in
theorem quotedUncontrolled_results_eq_reference :
    (quotedUncontrolled.config.mode = .uncontrolled ∧
      quotedUncontrolled.tree.isChain = true ∧
      (∀ action ∈ quotedLoading, action.ChangesRelations) ∧
      (∀ action ∈ quotedSales, action.Feeds quotedUncontrolled.tree.id) ∧
      (quotedUncontrolled.run (quotedLoading ++ quotedSales)).world.IsDrained
        quotedUncontrolled.tree ∧
      (quotedUncontrolled.sentBy quotedUncontrolled.tree.id
        (quotedLoading ++ quotedSales)).map Tuple.arrival = [4, 3, 6, 6]) ∧
      quotedUncontrolled.sentBy quotedUncontrolled.tree.id (quotedLoading ++ quotedSales) =
        quotedUncontrolled.tree.reference
          (quotedUncontrolled.run quotedLoading).world.catalog.relations
          (arrivalsAt quotedUncontrolled.tree.sourceId quotedSales) :=
  ⟨⟨rfl, by decide, by decide, by decide, by decide +kernel, by decide +kernel⟩,
    (chain_results_eq_reference quotedUncontrolled rfl (by decide) (by decide) (by decide)).2
      (by decide +kernel)⟩

end StreamQuery
