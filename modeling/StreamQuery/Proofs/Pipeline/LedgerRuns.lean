import StreamQuery.Proofs.Pipeline.LedgerHistory
import StreamQuery.Proofs.Pipeline.Runs

/-!
# Ledgers of runs

Throughout a run under control that prevents conflicts, the results of a pipeline are accounted for
in a ledger.
-/

namespace StreamQuery

namespace Pipeline

variable {pipeline : Pipeline} {deployment : Deployment} {loading actions : List Action}

theorem Provides.of_prefix {shown : Snapshot → Prop} {first arrived : List Tuple}
    (provides : pipeline.Provides shown arrived) (is_first : first <+: arrived) :
    pipeline.Provides shown first := by
  obtain ⟨later, rfl⟩ := is_first
  refine ⟨provides.streams.of_append, fun snapshot is_shown tuple member => ?_⟩
  exact provides.answers snapshot is_shown tuple
    (dataOf_append first later ▸ List.mem_append_left _ member)

theorem shown_of_relation? {earlier : List Action} (is_earlier : earlier <+: actions)
    {relation : Relation}
    (found : (deployment.run (loading ++ earlier)).world.relation? pipeline.reference.place =
      some relation) :
    pipeline.Shown deployment loading actions relation.snapshot :=
  ⟨earlier, is_earlier, by rw [Deployment.snapshotAfter, found]; rfl⟩

/-- Where rows fit, matches that do not fail have numbers. -/
theorem answers_of_fits (plan : pipeline.IsPlanOf deployment) {relation : Relation}
    (found : (deployment.run actions).world.relation? pipeline.reference.place = some relation)
    (rows_fit : ∀ row ∈ relation.rows, relation.schema.check row.values = .ok ()) {input : Tuple}
    (input_fits : pipeline.source.schema.check input.values = .ok ()) {results : List Tuple}
    (matched : matchSnapshot pipeline.condition pipeline.combine.schema pipeline.reference.place
      relation.snapshot input = .ok results) :
    pipeline.Answers relation.snapshot input := by
  obtain ⟨declared, declared_eq, schema_eq⟩ := deployment.isTyped plan.mem_postOrder.1
  have numeric := deployment.isTyped plan.mem_postOrder.2
  obtain ⟨same, same_found, _, relation_schema⟩ := Deployment.run_relation? declared_eq actions
  obtain rfl := Option.some.inj (same_found.symm.trans found)
  refine ⟨by rw [matchesOf_eq matched, matched], fun result member => ?_⟩
  rw [matchesOf_eq matched] at member
  exact hasNumber_of_mem_matchSnapshot (relation_schema ▸ schema_eq) numeric input_fits rows_fit
    matched member

/-- Once relations are loaded, a pipeline is at its start. -/
theorem accounts_of_loading (transacts : pipeline.TransactsIn deployment)
    (changes : ∀ action ∈ loading, action.ChangesRelations) {shown : Snapshot → Prop}
    (is_shown : ∀ relation,
      (deployment.run loading).world.relation? pipeline.reference.place = some relation →
        shown relation.snapshot) :
    pipeline.Accounts deployment shown [] (deployment.trace loading)
      (deployment.run loading).world (deployment.run loading).openCommits := by
  have planned := transacts.planned
  obtain ⟨declared, declared_eq, _⟩ := deployment.isTyped planned.isPlan.mem_postOrder.1
  obtain ⟨relation, found, _⟩ := Deployment.run_relation? declared_eq loading
  obtain ⟨cells_eq, commits_eq, trace_eq⟩ :=
    Schedule.performAll_of_changesRelations changes deployment.start
  obtain ⟨coherent, kept_eq⟩ : (deployment.run loading).world.catalog.IsCoherent ∧
      ∀ id, (deployment.run loading).world.catalog.kept? id =
        deployment.start.world.catalog.kept? id :=
    Schedule.performAll_kept? changes
      (World.IsIsolated.start planned.isPlan.hasCommit transacts.controlled).coherent
  have nothing_kept (id : RelationId) :
      (deployment.run loading).world.catalog.kept? id = none :=
    (kept_eq id).trans (deployment.start_kept? id)
  have no_results : pipeline.results (deployment.trace loading) = [] := by
    rw [Deployment.trace, trace_eq]
    rfl
  refine ⟨⟨deployment.run_mode loading, coherent, ⟨relation, found, is_shown relation found⟩,
      fun snapshot kept => ?_⟩, _, { snapshot := relation.snapshot, start := 0 },
    commits_eq.symm, (Shows.start planned transacts.controlled).of_cells_eq cells_eq,
    Line.Follows.start transacts.tumbling relation.snapshot, fun _ => ?_, .inl rfl, ?_⟩
  · rw [nothing_kept] at kept
    cases kept
  · rw [deployment.jointCount_eq]
    exact deployment.config.jointCount_pos
  · rw [no_results]
    exact .opening (is_shown relation found)

/-- An action keeps the accounts of a pipeline. -/
theorem Accounts.perform {execution : Execution} {log : List Firing} {action : Action}
    {shown : Snapshot → Prop} {arrived : List Tuple}
    (accounts : pipeline.Accounts deployment shown arrived log execution.world
      execution.openCommits)
    (transacts : pipeline.TransactsIn deployment) (action_allowed : pipeline.Allows action)
    (provides : pipeline.Provides shown arrived)
    (shown_next : ∀ relation,
      (deployment.schedule.perform execution action).world.relation? pipeline.reference.place =
        some relation → shown relation.snapshot) :
    pipeline.Accounts deployment shown (arrived ++ arrivalsAt pipeline.source.id [action])
      (log ++ deployment.schedule.actionFirings execution action)
      (deployment.schedule.perform execution action).world
      (deployment.schedule.perform execution action).openCommits := by
  have places := transacts.planned.isPlan.hasPlaces
  cases action with
  | arrive source tuple =>
      obtain rfl : source = pipeline.source.id := action_allowed
      rw [arrivalsAt_arrive, Schedule.actionFirings_of_external _ _ id, List.append_nil]
      exact accounts.arrive places tuple
  | load place row => exact action_allowed.elim
  | update place change =>
      rw [arrivalsAt_of_no_arrival rfl, Schedule.actionFirings_of_external _ _ id,
        List.append_nil, List.append_nil]
      exact accounts.changeRelation (fun relation => ⟨rfl, Nat.le_succ _⟩) shown_next
  | collect operator =>
      obtain rfl : operator = pipeline.mean.id := action_allowed
      rw [arrivalsAt_of_no_arrival rfl, Schedule.actionFirings_of_external _ _ id,
        List.append_nil, List.append_nil]
      exact accounts.collect places
  | setBatchCount count =>
      rw [arrivalsAt_of_no_arrival rfl, Schedule.actionFirings_of_external _ _ id,
        List.append_nil, List.append_nil]
      exact accounts
  | wakeUp =>
      rw [arrivalsAt_of_no_arrival rfl, List.append_nil]
      exact accounts.turn transacts provides

/-- Throughout a run a pipeline keeps its accounts. -/
theorem accounts_of_run (transacts : pipeline.TransactsIn deployment)
    (changes : ∀ action ∈ loading, action.ChangesRelations)
    (allowed : ∀ action ∈ actions, pipeline.Allows action)
    (provides : pipeline.Provides (pipeline.Shown deployment loading actions)
      (arrivalsAt pipeline.source.id actions))
    {earlier : List Action} (is_earlier : earlier <+: actions) :
    pipeline.Accounts deployment (pipeline.Shown deployment loading actions)
      (arrivalsAt pipeline.source.id earlier) (deployment.trace (loading ++ earlier))
      (deployment.run (loading ++ earlier)).world
      (deployment.run (loading ++ earlier)).openCommits := by
  induction earlier using List.reverseRecOn with
  | nil =>
      rw [List.append_nil]
      refine accounts_of_loading transacts changes fun relation found => ?_
      rw [← List.append_nil loading] at found
      exact shown_of_relation? is_earlier found
  | append_singleton earlier action induction =>
      have is_before : earlier <+: actions := (List.prefix_append _ _).trans is_earlier
      rw [← List.append_assoc, Deployment.trace_append_singleton, Deployment.run_append_singleton,
        arrivalsAt_append]
      refine (induction is_before).perform transacts
        (allowed action (is_earlier.subset (by simp)))
        (provides.of_prefix (is_before.filterMap _)) fun relation found => ?_
      rw [← Deployment.run_append_singleton, List.append_assoc] at found
      exact shown_of_relation? is_earlier found

/-- The results of a run under control that prevents conflicts come about in transactions. -/
theorem exists_entries_of_run (transacts : pipeline.TransactsIn deployment)
    (changes : ∀ action ∈ loading, action.ChangesRelations)
    (allowed : ∀ action ∈ actions, pipeline.Allows action)
    (provides : pipeline.Provides (pipeline.Shown deployment loading actions)
      (arrivalsAt pipeline.source.id actions)) :
    ∃ ended starts read,
      pipeline.Entries (pipeline.Shown deployment loading actions) deployment.config.jointCount
        (arrivalsAt pipeline.source.id actions)
        (dataOf (deployment.sentBy pipeline.mean.id (loading ++ actions))) ended starts read := by
  obtain ⟨_, transaction, _, within⟩ :=
    (accounts_of_run transacts changes allowed provides List.prefix_rfl).current
  have ledger := within.ledger
  rw [deployment.jointCount_eq] at ledger
  obtain ⟨ended, starts, read, entries, _⟩ :=
    ledger.exists_entries deployment.config.jointCount_pos
  exact ⟨ended, starts, read, entries⟩

end Pipeline

end StreamQuery
