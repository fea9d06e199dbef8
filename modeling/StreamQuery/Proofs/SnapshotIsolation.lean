import StreamQuery.Proofs.Isolation

/-!
# Snapshot isolation

Under snapshot isolation every window of the commit operator is derived from one version of each
relation, and successive results are derived from versions that never decrease.
-/

namespace StreamQuery

/-- What an evaluation of the commit operator looked at and sent has observed one version of each
relation. -/
def Firing.IsUniform (firing : Firing) : Prop :=
  ∃ versions : RelationId → Option Nat,
    (∀ contents ∈ firing.windows, ∀ tuple ∈ contents.tuples, tuple.Observed versions) ∧
      ∀ result ∈ firing.sent, result.Observed versions

/-- No stamp of the later tuple is older than a stamp of the earlier one for the same relation. -/
def Tuple.NotOlder (earlier later : Tuple) : Prop :=
  ∀ relation version version', (relation, version) ∈ earlier.stamps.entries →
    (relation, version') ∈ later.stamps.entries → version ≤ version'

namespace World.IsIsolated

variable {deployment : Deployment} {header : OperatorHeader} {window : Window} {index : Nat}
  {input : QueryTree} {world : World}

/-- An evaluation of the commit operator observes what is pinned afterwards. -/
theorem observed_of_fire (commit : deployment.HasCommit header window index input)
    (pessimistic : deployment.config.mode.isPessimistic = true)
    (isolated : world.IsIsolated deployment (.mean header window index input)) :
    (∀ contents ∈ (deployment.schedule.fire (.mean header window index input) world).windows,
      ∀ tuple ∈ contents.tuples, tuple.Observed world.catalog.pinned?) ∧
    ∀ result ∈ (deployment.schedule.fire (.mean header window index input) world).sent,
      result.Observed world.catalog.pinned? := by
  have root_mem := QueryTree.self_mem_postOrder (.mean header window index input)
  have is_input : input ∈ (QueryTree.mean header window index input).inputs := by
    simp [QueryTree.inputs]
  constructor
  · intro contents completed tuple inside
    have holds := holds_of_mem_completedWindows isolated.carries commit.mem_postOrder completed
      inside
    have observed := holds (QueryTree.input_mem_postOrder root_mem is_input)
      (deployment.forest.input_ne_root commit.mem_trees root_mem is_input)
    rwa [QueryTree.view_of_reads commit.reads] at observed
  · intro result sent
    have carries := isolated.carries_after pessimistic (deployment.schedule.role header.id)
      (.mean header window index input)
    have yields := mem_sent (evaluate_steps _ carries commit.mem_postOrder
      (deployment.input_id_ne commit.mem_postOrder)) sent
    have observed := isolated.observed_of_yields commit pessimistic _ root_mem yields
    rw [evaluate_catalog_of_aggregate, QueryTree.view_of_reads commit.root_reads] at observed
    exact observed

end World.IsIsolated

/-- What a run has evaluated and sent so far, and where it stands. -/
structure IsolatedHistory (deployment : Deployment) (commit : QueryTree) (log : List Firing)
    (world : World) : Prop where
  /-- The reads of the open transaction are isolated. -/
  isolated : world.IsIsolated deployment commit
  /-- The evaluations of the commit operator observed one version of each relation. -/
  uniform : ∀ firing ∈ log, firing.operator = commit → firing.IsUniform
  /-- The results so far are in the order of their versions. -/
  ordered : (Firing.sentBy commit.id log).Pairwise Tuple.NotOlder
  /-- No result so far is newer than what a read would show. -/
  visible : ∀ result ∈ Firing.sentBy commit.id log, ∀ entry ∈ result.stamps.entries,
    ∃ version, world.catalog.visible? entry.1 = some version ∧ entry.2 ≤ version

namespace IsolatedHistory

variable {deployment : Deployment} {header : OperatorHeader} {window : Window} {index : Nat}
  {input : QueryTree} {log : List Firing} {world after : World}

theorem advance {commit : QueryTree} (history : IsolatedHistory deployment commit log world)
    (isolated : after.IsIsolated deployment commit)
    (advances : world.catalog.Advances after.catalog) :
    IsolatedHistory deployment commit log after := by
  refine ⟨isolated, history.uniform, history.ordered, fun result member entry stamped => ?_⟩
  obtain ⟨version, shown, entry_le⟩ := history.visible result member entry stamped
  obtain ⟨later, later_shown, version_le⟩ := advances entry.1 version shown
  exact ⟨later, later_shown, entry_le.trans version_le⟩

/-- An evaluation of another operator adds no result. -/
theorem append_of_ne {commit : QueryTree} (history : IsolatedHistory deployment commit log world)
    {firing : Firing} (different : firing.operator.id ≠ commit.id) :
    IsolatedHistory deployment commit (log ++ [firing]) world := by
  have sent_eq := Firing.sentBy_append_of_ne log different
  refine ⟨history.isolated, fun other member same => ?_, sent_eq ▸ history.ordered,
    sent_eq ▸ history.visible⟩
  rcases List.mem_append.mp member with old | newest
  · exact history.uniform other old same
  · obtain rfl := List.mem_singleton.mp newest
    exact absurd (congrArg QueryTree.id same) different

/-- An evaluation of the commit operator adds results of the pinned versions, none of them older
than the results so far. -/
theorem append_self {firing : Firing}
    (history : IsolatedHistory deployment firing.operator log world)
    (windows_observed : ∀ contents ∈ firing.windows, ∀ tuple ∈ contents.tuples,
      tuple.Observed world.catalog.pinned?)
    (sent_observed : ∀ result ∈ firing.sent, result.Observed world.catalog.pinned?) :
    IsolatedHistory deployment firing.operator (log ++ [firing]) world := by
  have sent_eq := Firing.sentBy_append_self log firing
  refine ⟨history.isolated, fun other member same => ?_, ?_, fun result sent entry stamped => ?_⟩
  · rcases List.mem_append.mp member with old | newest
    · exact history.uniform other old same
    · obtain rfl := List.mem_singleton.mp newest
      exact ⟨world.catalog.pinned?, windows_observed, sent_observed⟩
  · refine sent_eq ▸ List.pairwise_append.mpr ⟨history.ordered, ?_, ?_⟩
    · -- The results of one evaluation have observed the same versions.
      refine List.pairwise_of_forall_mem_list fun first first_mem second second_mem => ?_
      intro relation version version' first_stamped second_stamped
      have first_pinned := (sent_observed first first_mem).stamps _ first_stamped
      have second_pinned := (sent_observed second second_mem).stamps _ second_stamped
      exact (Option.some.inj (first_pinned.symm.trans second_pinned)).le
    · intro earlier earlier_mem later later_mem relation version version' stamped later_stamped
      obtain ⟨shown, shown_eq, version_le⟩ := history.visible earlier earlier_mem _ stamped
      have pinned := (sent_observed later later_mem).stamps _ later_stamped
      have later_shown := Catalog.visible?_of_pinned? pinned
      rw [shown_eq] at later_shown
      exact version_le.trans (Option.some.inj later_shown).le
  · rw [sent_eq] at sent
    rcases List.mem_append.mp sent with old | newest
    · exact history.visible result old entry stamped
    · have pinned := (sent_observed result newest).stamps entry stamped
      exact ⟨entry.2, Catalog.visible?_of_pinned? pinned, le_rfl⟩

/-- An evaluation extends the history. -/
theorem fire (commit : deployment.HasCommit header window index input)
    (pessimistic : deployment.config.mode.isPessimistic = true) {operator : QueryTree}
    (member : operator ∈ deployment.tree.postOrder)
    (history : IsolatedHistory deployment (.mean header window index input) log world) :
    IsolatedHistory deployment (.mean header window index input)
      (log ++ [deployment.schedule.fire operator world])
      (world.evaluate (deployment.schedule.role operator.id) operator).1 := by
  have isolated := history.isolated
  have evaluated :=
    isolated.evaluate commit pessimistic (deployment.schedule.role operator.id) member
  obtain ⟨_, _, _, advances⟩ := isolated.evaluate_catalog_spec pessimistic
    (deployment.schedule.role operator.id) operator
  by_cases is_commit : operator = .mean header window index input
  · subst is_commit
    obtain ⟨windows_observed, sent_observed⟩ := isolated.observed_of_fire commit pessimistic
    exact (history.append_self windows_observed sent_observed).advance evaluated advances
  · have other_id : (deployment.schedule.fire operator world).operator.id ≠ header.id :=
      fun same => is_commit (deployment.eq_of_id_eq member commit.mem_postOrder same)
    exact (history.append_of_ne other_id).advance evaluated advances

/-- Histories are preserved under a protocol that prevents conflicts, if the redo area starts over
at the end of each transaction. -/
theorem preserves (commit : deployment.HasCommit header window index input)
    (pessimistic : deployment.config.mode.isPessimistic = true)
    (replays : deployment.schedule.replaysArea = true) :
    deployment.schedule.Preserves Action.IsFresh
      (IsolatedHistory deployment (.mean header window index input)) := by
  refine ⟨fun log world operator after error member history evaluated => ?_,
    fun log world operator after step execution member history evaluated world_eq => ?_,
    fun log execution action fresh external history => ?_⟩
  · have fired := history.fire commit pessimistic (deployment.order_eq ▸ member)
    rwa [evaluated] at fired
  · have fired := history.fire commit pessimistic (deployment.order_eq ▸ member)
    rw [evaluated, ← world_eq] at fired
    obtain ⟨isolated, advances⟩ := fired.isolated.react commit pessimistic replays step
    exact fired.advance isolated advances
  · obtain ⟨isolated, advances⟩ := history.isolated.perform fresh external
    exact history.advance isolated advances

theorem start (commit : deployment.HasCommit header window index input)
    (controlled : deployment.config.mode ≠ .uncontrolled) :
    IsolatedHistory deployment (.mean header window index input) [] deployment.start.world where
  isolated := .start commit controlled
  uniform := by simp
  ordered := by simp [Firing.sentBy]
  visible := by simp [Firing.sentBy]

end IsolatedHistory

/-- Under snapshot isolation every window that the commit operator evaluates is derived from one
version of each relation, the results are stamped with these versions, and the versions of
successive results never decrease. -/
theorem snapshot_windows_uniform (deployment : Deployment)
    (mode : deployment.config.mode = .snapshot) {commit : QueryTree}
    (found : deployment.tree.commitOperator? = some commit) {actions : List Action}
    (fresh : ∀ action ∈ actions, action.IsFresh) :
    (∀ firing ∈ deployment.trace actions, firing.operator = commit → firing.IsUniform) ∧
      (deployment.sentBy commit.id actions).Pairwise Tuple.NotOlder := by
  obtain ⟨header, window, index, input, rfl, has_commit⟩ :=
    deployment.hasCommit_of_commitOperator? found
  have pessimistic : deployment.config.mode.isPessimistic = true := by
    rw [mode]
    rfl
  have replays : deployment.schedule.replaysArea = true := by
    simp [Schedule.replaysArea, mode]
  have controlled : deployment.config.mode ≠ .uncontrolled := by
    rw [mode]
    exact Mode.noConfusion
  have history := (IsolatedHistory.preserves has_commit pessimistic replays).run fresh
    (IsolatedHistory.start has_commit controlled)
  exact ⟨history.uniform, history.ordered⟩

/-- Sales are given their prices as of the last commit, and averaged in pairs. -/
def pricedSnapshot : Deployment :=
  (Deployment.ofDeclarations? (pricedDeclarations (.rows 2 2)) "mean" (.ofMode .snapshot)).get
    (by decide)

/-- The price changes while the first of two pairs of sales is incomplete, and again after the first
pair was evaluated. -/
def repricedPairs : List Action :=
  [.load 0 (.ofInts priceSchema [1, 10] 0), .arrive 0 (.ofInts goodsSchema [1] 0)] ++
    List.replicate 3 .wakeUp ++
    [.update 0 fun _ => [.ofInts priceSchema [1, 20] 0],
      .arrive 0 (.ofInts goodsSchema [1] 1), .arrive 0 (.ofInts goodsSchema [1] 2)] ++
    List.replicate 6 .wakeUp ++
    [.update 0 fun _ => [.ofInts priceSchema [1, 30] 0],
      .arrive 0 (.ofInts goodsSchema [1] 3)] ++
    List.replicate 9 .wakeUp

set_option maxRecDepth 10000 in
/-- Both sales of a pair are given the price as of the commit of the pair before. -/
theorem pricedSnapshot_windows_uniform :
    (pricedSnapshot.config.mode = .snapshot ∧
      pricedSnapshot.tree.commitOperator? = some pricedSnapshot.tree ∧
      (∀ action ∈ repricedPairs, action.IsFresh) ∧
      (pricedSnapshot.sentBy pricedSnapshot.tree.id repricedPairs).map (·.stamps.entries) =
        [[(0, 0)], [(0, 1)]] ∧
      (pricedSnapshot.run repricedPairs).world.catalog.relations.map Relation.version = [2]) ∧
      (∀ firing ∈ pricedSnapshot.trace repricedPairs,
        firing.operator = pricedSnapshot.tree → firing.IsUniform) ∧
      (pricedSnapshot.sentBy pricedSnapshot.tree.id repricedPairs).Pairwise Tuple.NotOlder :=
  ⟨⟨rfl, rfl, by decide, by decide +kernel, by decide +kernel⟩,
    snapshot_windows_uniform pricedSnapshot rfl rfl (by decide)⟩

end StreamQuery
