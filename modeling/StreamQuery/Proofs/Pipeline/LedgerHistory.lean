import StreamQuery.Proofs.Pipeline.History
import StreamQuery.Proofs.Pipeline.Ledger
import StreamQuery.Proofs.Pipeline.Reads

/-!
# Histories of pipelines with transactions

Whatever happens to a pipeline under control that prevents conflicts, no evaluation fails, its
results are accounted for in a ledger, and it is in the transaction with which the ledger ends.
-/

namespace StreamQuery

namespace Pipeline

/-- A deployment that runs a pipeline over tumbling windows of rows under a protocol that prevents
conflicts. -/
structure TransactsIn (pipeline : Pipeline) (deployment : Deployment) : Prop where
  /-- The plan is the pipeline. -/
  planned : pipeline.PlannedIn deployment
  /-- The protocol prevents conflicts. -/
  pessimistic : deployment.config.mode.isPessimistic = true
  /-- Windows do not overlap. -/
  tumbling : pipeline.window.stride = pipeline.window.width

namespace TransactsIn

variable {pipeline : Pipeline} {deployment : Deployment}

theorem controlled (transacts : pipeline.TransactsIn deployment) :
    deployment.config.mode ≠ .uncontrolled := by
  intro mode_eq
  have pessimistic := transacts.pessimistic
  rw [mode_eq] at pessimistic
  cases pessimistic

theorem role_mean (transacts : pipeline.TransactsIn deployment) :
    deployment.schedule.role pipeline.mean.id =
      { checksConsistency := false, signalsCommit := true, defersClose := true } := by
  have pessimistic := transacts.pessimistic
  rw [transacts.planned.isPlan.role_mean]
  cases mode_eq : deployment.config.mode <;> rw [mode_eq] at pessimistic <;>
    first | rfl | cases pessimistic

theorem react_eq (transacts : pipeline.TransactsIn deployment) (execution : Execution)
    (step : Step) :
    deployment.schedule.react execution step =
      deployment.schedule.reactPessimistically execution step := by
  apply Schedule.react_of_isPessimistic
  rw [deployment.mode_eq]
  exact transacts.pessimistic

end TransactsIn

/-- What arrives at the stream, each tuple of which can be joined with every version that the
relation shows. -/
structure Provides (pipeline : Pipeline) (shown : Snapshot → Prop) (arrived : List Tuple) :
    Prop where
  /-- Data arrives, after which the stream may end. -/
  streams : pipeline.Streams arrived
  /-- The match does not fail. -/
  answers : ∀ snapshot, shown snapshot → ∀ tuple ∈ dataOf arrived, pipeline.Answers snapshot tuple

theorem Provides.answers_drop {pipeline : Pipeline} {shown : Snapshot → Prop}
    {arrived : List Tuple} (provides : pipeline.Provides shown arrived) {snapshot : Snapshot}
    (is_shown : shown snapshot) (start : Nat) :
    ∀ tuple ∈ dataOf (arrived.drop start), pipeline.Answers snapshot tuple :=
  fun tuple member => provides.answers snapshot is_shown tuple
    (((List.drop_sublist start arrived).filter _).subset member)

/-- A pipeline in the middle of a transaction, with a ledger of its results. -/
structure IsWithin (pipeline : Pipeline) (deployment : Deployment) (shown : Snapshot → Prop)
    (arrived : List Tuple) (log : List Firing) (world : World) (line : Line)
    (transaction : Transaction) : Prop where
  /-- The state of the operators. -/
  shows_line : pipeline.Shows world line transaction.isOpen
  /-- How far the transaction is. -/
  follows : line.Follows pipeline arrived transaction
  /-- The last commit of a transaction is open. -/
  unfinished : transaction.isOpen = false →
    transaction.commits < deployment.schedule.jointCount
  /-- Once the transaction has read the relation, its version is kept. -/
  reads : dataOf transaction.seen = [] ∨
    world.catalog.kept? pipeline.reference.place = some transaction.snapshot
  /-- The results so far. -/
  ledger : pipeline.Ledger shown deployment.schedule.jointCount arrived (pipeline.results log)
    transaction.start transaction.commits transaction.snapshot

/-- What is known of a pipeline that has committed a number of windows since its last transaction
ended. -/
structure Accounts (pipeline : Pipeline) (deployment : Deployment) (shown : Snapshot → Prop)
    (arrived : List Tuple) (log : List Firing) (world : World) (commits : Nat) : Prop where
  /-- Reads show versions of the relation. -/
  offers : world.Offers deployment.config.mode pipeline.reference.place shown
  /-- The current transaction. -/
  current : ∃ line transaction, transaction.commits = commits ∧
    pipeline.IsWithin deployment shown arrived log world line transaction

variable {pipeline : Pipeline} {deployment : Deployment} {shown : Snapshot → Prop}
  {arrived : List Tuple} {log : List Firing} {world : World} {commits : Nat}

/-- An evaluation that succeeds and, with the response of the scheduler, keeps the accounts. -/
def Proceeds (pipeline : Pipeline) (deployment : Deployment) (shown : Snapshot → Prop)
    (arrived : List Tuple) (log : List Firing) (world : World) (commits : Nat)
    (operator : QueryTree) : Prop :=
  ∃ step, (world.evaluate (deployment.schedule.role operator.id) operator).2 = .ok step ∧
    ∀ execution : Execution,
      execution.world = (world.evaluate (deployment.schedule.role operator.id) operator).1 →
      execution.openCommits = commits →
      pipeline.Accounts deployment shown arrived
        (log ++ [deployment.schedule.fire operator world])
        (deployment.schedule.react execution step).world
        (deployment.schedule.react execution step).openCommits

theorem proceeds_of_quiet {operator : QueryTree} {step : Step} (quiet : step.isSignal = false)
    (evaluated : (world.evaluate (deployment.schedule.role operator.id) operator).2 = .ok step)
    (accounts : pipeline.Accounts deployment shown arrived
      (log ++ [deployment.schedule.fire operator world])
      (world.evaluate (deployment.schedule.role operator.id) operator).1 commits) :
    pipeline.Proceeds deployment shown arrived log world commits operator := by
  refine ⟨step, evaluated, fun execution world_eq commits_eq => ?_⟩
  rw [Schedule.react_eq_self_of_isSignal_eq_false _ _ _ quiet, world_eq, commits_eq]
  exact accounts

namespace IsWithin

variable {line : Line} {transaction : Transaction}

theorem accounts (within : pipeline.IsWithin deployment shown arrived log world line transaction)
    (offers : world.Offers deployment.config.mode pipeline.reference.place shown) :
    pipeline.Accounts deployment shown arrived log world transaction.commits :=
  ⟨offers, line, transaction, rfl, within⟩

/-- The next state within the same transaction, in which no result was added. -/
theorem step (within : pipeline.IsWithin deployment shown arrived log world line transaction)
    (continued : Transaction) {after : World} {later : List Firing} {next : Line}
    (shows_next : pipeline.Shows after next continued.isOpen)
    (follows : next.Follows pipeline arrived continued)
    (start_eq : continued.start = transaction.start)
    (commits_eq : continued.commits = transaction.commits)
    (snapshot_eq : continued.snapshot = transaction.snapshot)
    (unfinished : continued.isOpen = false →
      transaction.commits < deployment.schedule.jointCount)
    (reads : dataOf continued.seen = [] ∨
      after.catalog.kept? pipeline.reference.place = some transaction.snapshot)
    (results_eq : pipeline.results later = pipeline.results log) :
    pipeline.IsWithin deployment shown arrived later after next continued where
  shows_line := shows_next
  follows := follows
  unfinished := commits_eq ▸ unfinished
  reads := snapshot_eq ▸ reads
  ledger := by
    rw [results_eq, start_eq, commits_eq, snapshot_eq]
    exact within.ledger

/-- An evaluation that reads no relation and reports nothing to the scheduler goes on within the
transaction. -/
theorem proceeds (within : pipeline.IsWithin deployment shown arrived log world line transaction)
    (offers : world.Offers deployment.config.mode pipeline.reference.place shown)
    {operator : QueryTree} {step : Step} (quiet : step.isSignal = false)
    (evaluated : (world.evaluate (deployment.schedule.role operator.id) operator).2 = .ok step)
    (catalog_eq : (world.evaluate (deployment.schedule.role operator.id) operator).1.catalog =
      world.catalog)
    {seen taken fresh : List Tuple} (seen_eq : dataOf seen = dataOf transaction.seen) {next : Line}
    (shows_next : pipeline.Shows
      (world.evaluate (deployment.schedule.role operator.id) operator).1 next transaction.isOpen)
    (follows : next.Follows pipeline arrived { transaction with seen, taken, fresh })
    (unchanged : pipeline.results (log ++ [deployment.schedule.fire operator world]) =
      pipeline.results log) :
    pipeline.Proceeds deployment shown arrived log world transaction.commits operator := by
  have reads := within.reads
  rw [← catalog_eq, ← seen_eq] at reads
  have next := within.step { transaction with seen, taken, fresh } shows_next follows rfl rfl rfl
    within.unfinished reads unchanged
  exact proceeds_of_quiet quiet evaluated (next.accounts (offers.of_catalog_eq catalog_eq))

/-- Whatever a read shows is the version of the transaction, which it chooses if it is the first.
-/
theorem choose (within : pipeline.IsWithin deployment shown arrived log world line transaction)
    {snapshot : Snapshot} (is_shown : shown snapshot)
    (kept_eq : ∀ kept, world.catalog.kept? pipeline.reference.place = some kept →
      snapshot = kept) :
    ∃ chosen : Transaction, chosen.snapshot = snapshot ∧ chosen.commits = transaction.commits ∧
      pipeline.IsWithin deployment shown arrived log world line chosen := by
  rcases within.reads with unread | kept
  · have commits_eq := within.follows.commits_of_unread unread
    have ledger := within.ledger
    rw [commits_eq] at ledger
    refine ⟨{ transaction with snapshot }, rfl, rfl, within.shows_line,
      within.follows.choose unread snapshot, within.unfinished, .inl unread, ?_⟩
    simp only [commits_eq]
    exact ledger.choose is_shown
  · exact ⟨transaction, (kept_eq _ kept).symm, rfl, within⟩

/-- A transaction that has committed enough windows ends with the tuple that waits for the mean. -/
theorem exists_next (within : pipeline.IsWithin deployment shown arrived log world line transaction)
    (transacts : pipeline.TransactsIn deployment) (provides : pipeline.Provides shown arrived)
    (is_open : transaction.isOpen = true)
    (complete : deployment.schedule.jointCount ≤ transaction.commits) {waiting : Tuple}
    {rest : List Tuple} (matched_eq : line.matched = waiting :: rest) {later : List Firing}
    (results_eq : pipeline.results later = pipeline.results log) {execution : Execution}
    (shows_line : pipeline.Shows execution.world line) {snapshot : Snapshot}
    (is_shown : shown snapshot) :
    ∃ next following, following.commits = 0 ∧
      pipeline.IsWithin deployment shown arrived later
        (deployment.schedule.endTransaction execution waiting.lowWater).world next following := by
  have ledger := within.ledger
  rw [← results_eq, Nat.le_antisymm ledger.commits_le complete] at ledger
  obtain ⟨front, origin, back, seen_eq, lowWater_eq, reached, passed, all_data⟩ :=
    within.follows.exists_boundary provides.streams matched_eq
  have arrivals : arrived.drop transaction.start =
      front ++ origin :: (back ++ line.passed.queue ++ line.arrivals) := by
    rw [← within.follows.arrivals, seen_eq]
    simp
  have taken_length :
      transaction.taken.length = deployment.schedule.jointCount * pipeline.window.width := by
    obtain ⟨done, data_eq, done_length⟩ := within.follows.committed
    rw [within.follows.settled is_open, List.append_nil, all_data] at data_eq
    rw [data_eq, done_length, Nat.le_antisymm within.ledger.commits_le complete]
  rw [taken_length] at reached passed
  refine ⟨_, { snapshot, start := transaction.start + front.length }, rfl,
    shows_line.endTransaction transacts.planned transacts.controlled _, ?_, fun _ => ?_, .inl rfl,
    ledger.next ⟨front, origin, _, arrivals, reached, passed, rfl⟩ is_shown⟩
  · rw [lowWater_eq]
    exact within.follows.rewind provides.streams seen_eq snapshot
  · rw [deployment.jointCount_eq]
    exact deployment.config.jointCount_pos

end IsWithin

namespace Accounts

/-! ## The stream and the match -/

theorem proceeds_stream (accounts : pipeline.Accounts deployment shown arrived log world commits)
    (transacts : pipeline.TransactsIn deployment) :
    pipeline.Proceeds deployment shown arrived log world commits pipeline.stream := by
  obtain ⟨line, transaction, rfl, within⟩ := accounts.current
  have places := transacts.planned.isPlan.hasPlaces
  have catalog_eq : (world.evaluate (deployment.schedule.role pipeline.stream.id)
      pipeline.stream).1.catalog = world.catalog := World.act_catalog _ _ _
  have unchanged : pipeline.results (log ++ [deployment.schedule.fire pipeline.stream world]) =
      pipeline.results log :=
    results_append_of_ne deployment log (show pipeline.stream.id ≠ _ from places.source_ne_mean)
      world
  cases arrivals_eq : line.arrivals with
  | nil =>
      obtain ⟨evaluated, shows_after⟩ :=
        within.shows_line.evaluate_stream_of_nil places arrivals_eq
      exact within.proceeds accounts.offers rfl evaluated catalog_eq rfl shows_after within.follows
        unchanged
  | cons tuple rest =>
      obtain ⟨evaluated, shows_after⟩ :=
        within.shows_line.evaluate_stream_of_cons places arrivals_eq
      exact within.proceeds accounts.offers rfl evaluated catalog_eq rfl shows_after
        (within.follows.pass arrivals_eq) unchanged

theorem proceeds_matching (accounts : pipeline.Accounts deployment shown arrived log world commits)
    (transacts : pipeline.TransactsIn deployment) (provides : pipeline.Provides shown arrived) :
    pipeline.Proceeds deployment shown arrived log world commits pipeline.matching := by
  obtain ⟨line, transaction, rfl, within⟩ := accounts.current
  have places := transacts.planned.isPlan.hasPlaces
  have unchanged : pipeline.results (log ++ [deployment.schedule.fire pipeline.matching world]) =
      pipeline.results log :=
    results_append_of_ne deployment log
      (show pipeline.matching.id ≠ _ from places.combine_ne_mean) world
  cases queue_eq : line.passed.queue with
  | nil =>
      have evaluated := within.shows_line.evaluate_matching_of_nil queue_eq
        (deployment.schedule.role pipeline.matching.id)
      have idle : Step.idle.isSignal = false := rfl
      refine within.proceeds accounts.offers idle (by rw [evaluated]) (by rw [evaluated]) rfl ?_
        within.follows unchanged
      rw [evaluated]
      exact within.shows_line
  | cons tuple rest =>
      cases is_marker : tuple.isEndOfStream with
      | true =>
          obtain ⟨step, quiet, evaluated, catalog_eq, shows_after⟩ :=
            within.shows_line.evaluate_matching_of_marker places queue_eq is_marker
          have matched := within.follows.match queue_eq
          rw [sends_of_marker is_marker] at matched
          exact within.proceeds accounts.offers quiet evaluated catalog_eq
            (dataOf_append_of_marker transaction.seen is_marker) shows_after matched unchanged
      | false =>
          obtain ⟨relation, snapshot, catalog, found, id_eq, read, is_shown, kept_eq, next⟩ :=
            accounts.offers.exists_read transacts.pessimistic
          obtain ⟨chosen, rfl, same_commits, within⟩ := within.choose is_shown kept_eq
          have input_mem : tuple ∈ dataOf arrived := List.mem_filter.mpr
            ⟨within.follows.mem_arrived (by simp [queue_eq]), by simp [is_marker]⟩
          have answers := provides.answers chosen.snapshot is_shown tuple input_mem
          obtain ⟨step, quiet, evaluated, catalog_eq, shows_after⟩ :=
            within.shows_line.evaluate_matching_of_data places queue_eq is_marker found read
              (id_eq ▸ answers.matched)
          obtain ⟨offers, kept⟩ := next _ catalog_eq
          have matched := within.follows.match queue_eq
          rw [sends_of_data is_marker] at matched
          have next := within.step { chosen with seen := chosen.seen ++ [tuple] } shows_after
            matched rfl rfl rfl within.unfinished (.inr kept) unchanged
          rw [← same_commits]
          exact proceeds_of_quiet quiet evaluated (next.accounts offers)

/-! ## The mean -/

section

variable {line : Line} {transaction : Transaction} {tuple : Tuple} {rest : List Tuple}

/-- The transaction ends when it has committed enough windows and another match waits. -/
theorem proceeds_open (offers : world.Offers deployment.config.mode pipeline.reference.place shown)
    (within : pipeline.IsWithin deployment shown arrived log world line transaction)
    (transacts : pipeline.TransactsIn deployment) (provides : pipeline.Provides shown arrived)
    (is_open : transaction.isOpen = true) (matched_eq : line.matched = tuple :: rest) :
    pipeline.Proceeds deployment shown arrived log world transaction.commits pipeline.tree := by
  have places := transacts.planned.isPlan.hasPlaces
  have shows_line := within.shows_line
  rw [is_open] at shows_line
  obtain ⟨evaluated, shows_after⟩ := shows_line.evaluate_tree_of_open places matched_eq
  have catalog_eq : (world.evaluate (deployment.schedule.role pipeline.mean.id)
      pipeline.tree).1.catalog = world.catalog := World.evaluate_catalog_of_aggregate _ _ _ _ _ _
  have unchanged := results_append_of_no_data deployment log within.shows_line shows_after
    (List.append_nil line.results).symm dataOf_nil
  refine ⟨_, evaluated, fun execution world_eq commits_eq => ?_⟩
  rw [tree_id] at world_eq
  rw [← world_eq] at shows_after catalog_eq
  have offers := offers.of_catalog_eq catalog_eq
  rw [transacts.react_eq, Schedule.reactPessimistically, commits_eq]
  split
  next complete =>
    obtain ⟨relation, found, is_shown⟩ := offers.current
    rw [Schedule.endTransaction_openCommits]
    exact ⟨offers.endTransactionAt transacts.pessimistic
        (transacts.planned.isPlan.endTransaction_catalog execution tuple.lowWater),
      within.exists_next transacts provides is_open complete matched_eq unchanged shows_after
        is_shown⟩
  next incomplete =>
    have reads := within.reads
    rw [← catalog_eq] at reads
    have next := within.step { transaction with isOpen := false } shows_after
      within.follows.close rfl rfl rfl (fun _ => Nat.lt_of_not_le incomplete) reads unchanged
    rw [commits_eq]
    exact next.accounts offers

/-- Data that completes no window is remembered. -/
theorem proceeds_remembering
    (offers : world.Offers deployment.config.mode pipeline.reference.place shown)
    (within : pipeline.IsWithin deployment shown arrived log world line transaction)
    (transacts : pipeline.TransactsIn deployment) (closed : transaction.isOpen = false)
    (matched_eq : line.matched = tuple :: rest) (is_data : tuple.isEndOfStream = false)
    (none_reported : (line.buffer.enqueue tuple).2 = [])
    (follows : Line.Follows pipeline arrived
      { transaction with
        taken := transaction.taken ++ [tuple]
        fresh := transaction.fresh ++ [tuple] }
      { line with matched := rest, buffer := (line.buffer.enqueue tuple).1 }) :
    pipeline.Proceeds deployment shown arrived log world transaction.commits pipeline.tree := by
  have shows_line := within.shows_line
  rw [closed] at shows_line
  obtain ⟨evaluated, shows_after⟩ := shows_line.evaluate_tree_of_remembered
    transacts.planned.isPlan.hasPlaces matched_eq is_data none_reported
  have unchanged := results_append_of_no_data deployment log shows_line shows_after
    (List.append_nil line.results).symm dataOf_nil
  rw [← closed] at shows_after
  exact within.proceeds offers rfl evaluated (World.evaluate_catalog_of_aggregate _ _ _ _ _ _) rfl
    shows_after follows unchanged

/-- A window that is complete is committed. -/
theorem proceeds_commit
    (offers : world.Offers deployment.config.mode pipeline.reference.place shown)
    (within : pipeline.IsWithin deployment shown arrived log world line transaction)
    (transacts : pipeline.TransactsIn deployment) (provides : pipeline.Provides shown arrived)
    (closed : transaction.isOpen = false) (matched_eq : line.matched = tuple :: rest)
    (is_data : tuple.isEndOfStream = false)
    (completes : line.Completes pipeline arrived transaction tuple rest) :
    pipeline.Proceeds deployment shown arrived log world transaction.commits pipeline.tree := by
  have signals : (deployment.schedule.role pipeline.mean.id).signalsCommit = true := by
    rw [transacts.role_mean]
  have defers : (deployment.schedule.role pipeline.mean.id).defersClose = true := by
    rw [transacts.role_mean]
  have unchecked : (deployment.schedule.role pipeline.mean.id).checksConsistency = true →
      (line.buffer.enqueue tuple).1.contents.isConsistent = true := by
    rw [transacts.role_mean]
    exact fun impossible => by cases impossible
  obtain ⟨result, computed⟩ := exists_meanOf_block
    (provides.answers_drop within.ledger.is_shown transaction.start)
    (transaction.commits * pipeline.window.width)
  have applied : (AggregateFunction.mean pipeline.index).apply pipeline.mean.schema
      (line.buffer.enqueue tuple).1.contents = .ok result := by
    rw [← computed, ← completes.tuples_eq]
    rfl
  have shows_line := within.shows_line
  rw [closed] at shows_line
  obtain ⟨evaluated, shows_after⟩ := shows_line.evaluate_tree_of_window
    transacts.planned.isPlan.hasPlaces signals matched_eq is_data completes.reported unchecked
    applied
  rw [defers] at shows_after
  have extended := results_append deployment log shows_line shows_after rfl
  have result_is_data : result.isEndOfStream = false := by
    rw [Tuple.isEndOfStream, (AggregateFunction.apply_eq_ok applied).1]
    rfl
  rw [dataOf_cons_of_data result_is_data, dataOf_nil] at extended
  have catalog_eq : (world.evaluate (deployment.schedule.role pipeline.mean.id)
      pipeline.tree).1.catalog = world.catalog := World.evaluate_catalog_of_aggregate _ _ _ _ _ _
  have reads := within.reads
  rw [← catalog_eq] at reads
  have ledger := within.ledger.commit (within.unfinished closed)
    (completes.tuples_eq ▸ completes.filled) computed
  rw [← extended] at ledger
  refine ⟨_, evaluated, fun execution world_eq commits_eq => ?_⟩
  rw [tree_id] at world_eq
  rw [transacts.react_eq]
  simp only [Schedule.reactPessimistically, Execution.countCommit, world_eq, commits_eq]
  exact ⟨offers.of_catalog_eq catalog_eq, _,
    { transaction with
      commits := transaction.commits + 1
      isOpen := true
      taken := transaction.taken ++ [tuple]
      fresh := [] },
    rfl, shows_after, completes.follows.collect _, (fun impossible => by cases impossible), reads,
    ledger⟩

theorem proceeds_marker
    (offers : world.Offers deployment.config.mode pipeline.reference.place shown)
    (within : pipeline.IsWithin deployment shown arrived log world line transaction)
    (transacts : pipeline.TransactsIn deployment) (closed : transaction.isOpen = false)
    (matched_eq : line.matched = tuple :: rest) (is_marker : tuple.isEndOfStream = true) :
    pipeline.Proceeds deployment shown arrived log world transaction.commits pipeline.tree := by
  have shows_line := within.shows_line
  rw [closed] at shows_line
  obtain ⟨evaluated, shows_after⟩ := shows_line.evaluate_tree_of_marker
    transacts.planned.isPlan.hasPlaces matched_eq is_marker
  have unchanged := results_append_of_no_data deployment log within.shows_line shows_after rfl
    (dataOf_cons_of_marker is_marker [])
  rw [← closed] at shows_after
  exact within.proceeds offers rfl evaluated (World.evaluate_catalog_of_aggregate _ _ _ _ _ _) rfl
    shows_after ((within.follows.skip_marker matched_eq is_marker).collect _) unchanged

end

theorem proceeds_tree (accounts : pipeline.Accounts deployment shown arrived log world commits)
    (transacts : pipeline.TransactsIn deployment) (provides : pipeline.Provides shown arrived) :
    pipeline.Proceeds deployment shown arrived log world commits pipeline.tree := by
  obtain ⟨line, transaction, rfl, within⟩ := accounts.current
  have offers := accounts.offers
  cases matched_eq : line.matched with
  | nil =>
      have evaluated := within.shows_line.evaluate_tree_of_nil matched_eq
        (deployment.schedule.role pipeline.tree.id)
      have idle : Step.idle.isSignal = false := rfl
      have shows_after : pipeline.Shows
          (world.evaluate (deployment.schedule.role pipeline.mean.id) pipeline.tree).1 line
          transaction.isOpen := by
        rw [← tree_id, evaluated]
        exact within.shows_line
      have unchanged := results_append_of_no_data deployment log within.shows_line shows_after
        (List.append_nil line.results).symm dataOf_nil
      exact within.proceeds offers idle (by rw [evaluated]) (by rw [evaluated]) rfl shows_after
        within.follows unchanged
  | cons tuple rest =>
      cases is_open : transaction.isOpen with
      | true => exact proceeds_open offers within transacts provides is_open matched_eq
      | false =>
          cases is_marker : tuple.isEndOfStream with
          | true => exact proceeds_marker offers within transacts is_open matched_eq is_marker
          | false =>
              rcases within.follows.accept is_open matched_eq is_marker with
                ⟨none_reported, follows⟩ | completes
              · exact proceeds_remembering offers within transacts is_open matched_eq is_marker
                  none_reported follows
              · exact proceeds_commit offers within transacts provides is_open matched_eq
                  is_marker completes

/-- Every operator of a pipeline keeps the accounts. -/
theorem proceeds (accounts : pipeline.Accounts deployment shown arrived log world commits)
    (transacts : pipeline.TransactsIn deployment) (provides : pipeline.Provides shown arrived)
    {operator : QueryTree} (member : operator ∈ deployment.schedule.order) :
    pipeline.Proceeds deployment shown arrived log world commits operator := by
  rw [transacts.planned.isPlan.order_eq] at member
  simp only [List.mem_cons, List.not_mem_nil, or_false] at member
  rcases member with rfl | rfl | rfl
  · exact accounts.proceeds_stream transacts
  · exact accounts.proceeds_matching transacts provides
  · exact accounts.proceeds_tree transacts provides

/-! ## Turns and actions -/

/-- A turn of the scheduler keeps the accounts. -/
theorem turn {execution : Execution}
    (accounts : pipeline.Accounts deployment shown arrived log execution.world
      execution.openCommits)
    (transacts : pipeline.TransactsIn deployment) (provides : pipeline.Provides shown arrived) :
    pipeline.Accounts deployment shown arrived (log ++ deployment.schedule.firings execution)
      (deployment.schedule.wakeUp execution).1.world
      (deployment.schedule.wakeUp execution).1.openCommits := by
  have sustains : deployment.schedule.Sustains (fun _ => False)
      (pipeline.Accounts deployment shown arrived) := by
    refine ⟨fun log world commits operator after error member accounts evaluated => ?_,
      fun log world operator after step execution member accounts evaluated world_eq => ?_,
      fun _ _ _ impossible => impossible.elim⟩
    · obtain ⟨step, succeeds, _⟩ := accounts.proceeds transacts provides member
      rw [evaluated] at succeeds
      cases succeeds
    · obtain ⟨expected, succeeds, continues⟩ := accounts.proceeds transacts provides member
      rw [evaluated] at succeeds continues
      cases succeeds
      exact continues execution world_eq rfl
  exact sustains.turn accounts

/-- What arrives waits for the stream. -/
theorem arrive (accounts : pipeline.Accounts deployment shown arrived log world commits)
    (places : pipeline.HasPlaces) (tuple : Tuple) :
    pipeline.Accounts deployment shown (arrived ++ [tuple]) log
      (world.modifyArrivals pipeline.source.id (·.enqueue tuple)) commits := by
  obtain ⟨line, transaction, rfl, within⟩ := accounts.current
  exact ⟨accounts.offers.of_catalog_eq rfl, _, transaction, rfl,
    within.shows_line.arrive places tuple, within.follows.arrive tuple, within.unfinished,
    within.reads, within.ledger.append [tuple]⟩

theorem collect (accounts : pipeline.Accounts deployment shown arrived log world commits)
    (places : pipeline.HasPlaces) :
    pipeline.Accounts deployment shown arrived log
      (world.modifyOutput pipeline.mean.id Channel.clear) commits := by
  obtain ⟨line, transaction, rfl, within⟩ := accounts.current
  exact ⟨accounts.offers.of_catalog_eq rfl, _, transaction, rfl, within.shows_line.collect places,
    within.follows.collect [], within.unfinished, within.reads, within.ledger⟩

/-- A change of a relation from outside leaves what a transaction has read. -/
theorem changeRelation (accounts : pipeline.Accounts deployment shown arrived log world commits)
    {changed : Nat} {change : Relation → Relation}
    (grows : ∀ relation : Relation, relation.Becomes (change relation))
    (still_shown : ∀ relation,
      (world.changeRelation changed change).relation? pipeline.reference.place = some relation →
        shown relation.snapshot) :
    pipeline.Accounts deployment shown arrived log (world.changeRelation changed change)
      commits := by
  obtain ⟨line, transaction, rfl, within⟩ := accounts.current
  have reads := within.reads
  rw [← accounts.offers.changeRelation_kept? changed change] at reads
  exact ⟨accounts.offers.changeRelation grows still_shown, line, transaction, rfl,
    within.shows_line.of_cells_eq rfl, within.follows, within.unfinished, reads, within.ledger⟩

end Accounts

end Pipeline

end StreamQuery
