import StreamQuery.Proofs.Engine.Deployment
import StreamQuery.Proofs.Engine.Firing
import StreamQuery.Proofs.Provenance

/-!
# Isolation of pessimistic transactions

Under two-phase locking and under snapshot isolation, every tuple below the commit operator has
observed the versions that are pinned at the moment. A read pins a version; the end of a transaction
unpins all of them, but also forgets every tuple that has read a relation.
-/

namespace StreamQuery

/-- Below the commit operator tuples have observed the given versions, and only results without
reads are backed up. -/
def isolatedFlow (commit : QueryTree) (versions : RelationId → Option Nat) : FlowInvariant where
  holds operator tuple :=
    operator ∈ commit.postOrder → operator ≠ commit → tuple.Observed (operator.view versions)
  keeps operator := operator ∈ commit.postOrder → operator.reads = 0

/-- All reads of the open transaction are isolated from changes. -/
structure World.IsIsolated (deployment : Deployment) (commit : QueryTree) (world : World) :
    Prop where
  /-- The protocol is that of the deployment. -/
  mode : world.catalog.access.mode = deployment.config.mode
  /-- The locks and copies are in order. -/
  coherent : world.catalog.IsCoherent
  /-- Tuples have observed the pinned versions. -/
  carries : world.Carries (isolatedFlow commit world.catalog.pinned?) deployment.tree

/-- At the start nothing is locked or copied. -/
theorem Deployment.start_isCoherent (deployment : Deployment) :
    deployment.start.world.catalog.IsCoherent := by
  rw [deployment.start_catalog]
  refine ⟨fun place relation found => ?_, fun id place held => ?_, fun id version copied => ?_⟩
  · simp only [World.initial, List.getElem?_map, List.getElem?_zipIdx, Option.map_map,
      Option.map_eq_some_iff] at found
    obtain ⟨declaration, _, rfl⟩ := found
    simp
  · simp [World.initial] at held
  · simp [World.initial, RelationAccess.snapshotVersion?] at copied

namespace World.IsIsolated

variable {deployment : Deployment} {header : OperatorHeader} {window : Window} {index : Nat}
  {input : QueryTree} {world : World}

theorem start (commit : deployment.HasCommit header window index input)
    (controlled : deployment.config.mode ≠ .uncontrolled) :
    deployment.start.world.IsIsolated deployment (.mean header window index input) := by
  refine ⟨?_, deployment.start_isCoherent, ?_⟩
  · rw [deployment.start_catalog, ← deployment.mode_eq]
    rfl
  · exact deployment.start_carries fun operator member delivered _ =>
      commit.reads_eq_zero_of_mem_streams controlled member delivered

section

variable {operator : QueryTree} (commit : deployment.HasCommit header window index input)
  (pessimistic : deployment.config.mode.isPessimistic = true)
  (isolated : world.IsIsolated deployment (.mean header window index input))

include pessimistic isolated

theorem readSpec {place : Nat} {relation : Relation} {snapshot : Snapshot} {after : Catalog}
    (found : world.catalog.relations[place]? = some relation)
    (read : world.catalog.readRelation place relation = (snapshot, after)) :
    world.catalog.ReadSpec after relation.id snapshot.version :=
  Catalog.readRelation_spec isolated.coherent (isolated.mode ▸ pessimistic) found read

/-- An evaluation leaves the catalog coherent; what is pinned stays pinned. -/
theorem evaluate_catalog_spec (role : CommitRole) (operator : QueryTree) :
    (world.evaluate role operator).1.catalog.IsCoherent ∧
      (world.evaluate role operator).1.catalog.access.mode = world.catalog.access.mode ∧
      (∀ id version, world.catalog.pinned? id = some version →
        (world.evaluate role operator).1.catalog.pinned? id = some version) ∧
      world.catalog.Advances (world.evaluate role operator).1.catalog := by
  rcases world.evaluate_catalog role operator with
    unchanged | ⟨_, _, _, _, relation, snapshot, _, found, read⟩
  · rw [unchanged]
    exact ⟨isolated.coherent, rfl, fun _ _ pinned => pinned, .refl _⟩
  · have spec := isolated.readSpec pessimistic found read
    exact ⟨spec.coherent, spec.mode, spec.extends_pinned, spec.advances⟩

/-- Before an evaluation, tuples have also observed what is pinned after it. -/
theorem carries_after (role : CommitRole) (operator : QueryTree) :
    world.Carries
      (isolatedFlow (.mean header window index input)
        (world.evaluate role operator).1.catalog.pinned?)
      deployment.tree := by
  obtain ⟨_, _, extends_pinned, _⟩ :=
    isolated.evaluate_catalog_spec pessimistic role operator
  refine isolated.carries.mono (fun source _ tuple holds inside below => ?_) fun _ _ keeps => keeps
  refine (holds inside below).mono fun id version seen => ?_
  rw [QueryTree.view] at seen ⊢
  split at seen
  · rename_i reads
    rw [if_pos reads]
    exact extends_pinned id version seen
  · cases seen

include commit

/-- What an operator at or below the commit operator computes has observed the pinned versions. -/
theorem observed_of_yields (role : CommitRole)
    (inside : operator ∈ (QueryTree.mean header window index input).postOrder) {result : Tuple}
    (yields : Yields world.catalog (world.evaluate role operator).1.catalog role
      (isolatedFlow (.mean header window index input)
        (world.evaluate role operator).1.catalog.pinned?).holds operator result) :
    result.Observed (operator.view (world.evaluate role operator).1.catalog.pinned?) := by
  refine yields.observed (fun source tuple operator_eq holds => ?_)
    (fun below is_input tuple holds => ?_)
    fun place relation snapshot found read =>
      (isolated.readSpec pessimistic found read).pinned
  · subst operator_eq
    exact holds inside (by simp)
  · exact holds (QueryTree.input_mem_postOrder inside is_input)
      (deployment.forest.input_ne_root commit.mem_trees inside is_input)

/-- An evaluation keeps the reads of the open transaction isolated. -/
theorem evaluate (role : CommitRole) (member : operator ∈ deployment.tree.postOrder) :
    (world.evaluate role operator).1.IsIsolated deployment (.mean header window index input) := by
  obtain ⟨coherent, mode_eq, _, _⟩ :=
    isolated.evaluate_catalog_spec pessimistic role operator
  refine ⟨mode_eq.trans isolated.mode, coherent, ?_⟩
  refine (isolated.carries_after pessimistic role operator).evaluate deployment.ids_nodup member
    (deployment.input_id_ne member) fun result yields inside _ => ?_
  exact isolated.observed_of_yields commit pessimistic role inside yields

end

/-- A change of a relation from outside leaves the reads of the open transaction alone. -/
theorem changeRelation {commit : QueryTree} (isolated : world.IsIsolated deployment commit)
    {place : Nat} {change : Relation → Relation}
    (grows : ∀ relation : Relation, relation.Becomes (change relation)) :
    (world.changeRelation place change).IsIsolated deployment commit ∧
      world.catalog.Advances (world.changeRelation place change).catalog := by
  have becomes (relation : Relation) :
      relation.Becomes (if relation.isLocked then relation else change relation) := by
    split
    · exact .refl relation
    · exact grows relation
  obtain ⟨coherent, advances, pinned_eq⟩ :=
    Catalog.changeRelation_spec isolated.coherent becomes fun relation locked => if_pos locked
  refine ⟨⟨isolated.mode, coherent, ?_⟩, advances⟩
  have carries : (world.changeRelation place change).Carries
      (isolatedFlow commit world.catalog.pinned?) deployment.tree :=
    isolated.carries.of_cells_eq rfl
  rwa [← pinned_eq] at carries

/-! ## Ends of transactions -/

theorem endTransactions_spec {mode : Mode} (pessimistic : mode.isPessimistic = true)
    (operators : List QueryTree) (coherent : world.catalog.IsCoherent)
    (mode_eq : world.catalog.access.mode = mode) :
    (world.endTransactions mode operators).catalog.IsCoherent ∧
      (world.endTransactions mode operators).catalog.access.mode = mode ∧
      world.catalog.Advances (world.endTransactions mode operators).catalog := by
  induction operators generalizing world with
  | nil => exact ⟨coherent, mode_eq, .refl _⟩
  | cons operator operators induction =>
      cases relation_eq : operator.relation? with
      | none =>
          have nothing_ends : world.endTransactions mode (operator :: operators) =
              world.endTransactions mode operators := by
            simp only [endTransactions, List.foldl_cons, relation_eq]
          rw [nothing_ends]
          exact induction coherent mode_eq
      | some relation =>
          have one_ends : world.endTransactions mode (operator :: operators) =
              World.endTransactions
                { world with catalog := world.catalog.endTransactionAt relation.place mode }
                mode operators := by
            simp only [endTransactions, List.foldl_cons, relation_eq]
          have spec := Catalog.endTransactionAt_spec coherent (mode_eq ▸ pessimistic)
            relation.place
          rw [mode_eq] at spec
          obtain ⟨next_coherent, next_mode, next_advances⟩ := spec
          obtain ⟨final_coherent, final_mode, final_advances⟩ :=
            @induction { world with catalog := _ } next_coherent next_mode
          rw [one_ends]
          exact ⟨final_coherent, final_mode, next_advances.trans final_advances⟩

/-- Once the redo area has started over, no tuple below the commit operator has read anything, so
that any versions may be pinned. -/
theorem carries_restart (commit : deployment.HasCommit header window index input)
    (versions : RelationId → Option Nat) {versions' : RelationId → Option Nat}
    (carries : world.Carries (isolatedFlow (.mean header window index input) versions)
      deployment.tree) :
    (world.restart (some header.id) (RedoArea.ofTree deployment.tree).operators).Carries
      (isolatedFlow (.mean header window index input) versions') deployment.tree := by
  intro operator member cell found
  have carried := carries.restart operator member cell found
  have unread_eq {other : QueryTree} (unread : other.reads = 0) :
      other.view versions = other.view versions' := by
    simp [QueryTree.view, unread]
  by_cases inside : operator ∈ (QueryTree.mean header window index input).postOrder
  · by_cases unread : operator.reads = 0
    · -- Without reads nothing depends on the versions.
      refine carried.mono (fun source source_mem tuple holds source_inside proper => ?_) id
      have source_unread : source.reads = 0 := by
        rcases List.mem_cons.mp source_mem with rfl | is_input
        · exact unread
        · exact Nat.le_zero.mp (unread ▸ QueryTree.reads_input_le is_input)
      exact unread_eq source_unread ▸ holds source_inside proper
    · -- An operator with reads has started over.
      have restarted := RedoArea.mem_ofTree_operators commit.mem_postOrder inside
        (Nat.pos_of_ne_zero unread)
      obtain ⟨memory_eq, emptied⟩ := World.restart_spec restarted found
      have no_backup : cell.output.backup = [] := by
        by_contra nonempty
        exact unread (carried.keeps (.inr nonempty) inside)
      refine ⟨fun tuple waits _ proper => ?_, by simp [no_backup], carried.keeps, ?_⟩
      · have different : some header.id ≠ some operator.id := by
          intro same
          refine proper (deployment.eq_of_id_eq member commit.mem_postOrder ?_)
          exact (Option.some.inj same).symm
        rw [emptied different] at waits
        cases waits
      · rw [← memory_eq]
        refine Memory.carries_reset fun arrivals source _ operator_eq => ?_
        simp [operator_eq, QueryTree.reads] at unread
  · -- Operators elsewhere do not read anything that is claimed of.
    refine carried.mono (fun source source_mem tuple _ source_inside proper => ?_) id
    have operator_mem := (deployment.forest.mem_of_mem_postOrder deployment.tree_mem member).1
    rcases List.mem_cons.mp source_mem with rfl | is_input
    · exact absurd source_inside inside
    · exact absurd (deployment.forest.mem_postOrder_of_input_mem commit.mem_trees operator_mem
        is_input source_inside proper) inside

/-- What the scheduler does in response to a step keeps reads isolated. -/
theorem react (commit : deployment.HasCommit header window index input)
    (pessimistic : deployment.config.mode.isPessimistic = true)
    (replays : deployment.schedule.replaysArea = true) {execution : Execution} (step : Step)
    (isolated : execution.world.IsIsolated deployment (.mean header window index input)) :
    (deployment.schedule.react execution step).world.IsIsolated deployment
        (.mean header window index input) ∧
      execution.world.catalog.Advances
        (deployment.schedule.react execution step).world.catalog := by
  have controlled : deployment.config.mode ≠ .uncontrolled := by
    intro mode_eq
    simp [mode_eq, Mode.isPessimistic] at pessimistic
  have schedule_pessimistic : deployment.schedule.mode.isPessimistic = true := by
    rwa [deployment.mode_eq]
  rw [Schedule.react_of_isPessimistic schedule_pessimistic]
  have stays : execution.world.IsIsolated deployment (.mean header window index input) ∧
      execution.world.catalog.Advances execution.world.catalog := ⟨isolated, .refl _⟩
  cases step with
  | pendingAbort waiting =>
      simp only [Schedule.reactPessimistically]
      split
      · rw [Schedule.endTransaction]
        simp only [replays, if_true, Schedule.restartArea, Schedule.modifyInlets,
          commit.commit?_eq, commit.redo_eq controlled, deployment.mode_eq]
        obtain ⟨coherent, mode_eq, advances⟩ :=
          endTransactions_spec pessimistic deployment.schedule.order isolated.coherent isolated.mode
        refine ⟨⟨by simpa using mode_eq, by simpa using coherent, ?_⟩, by simpa using advances⟩
        apply carries_restart commit execution.world.catalog.pinned?
        refine Carries.modifyOutputs ?_ fun channel => channel.shrinks_evictAndRewind waiting
        exact isolated.carries.of_cells_eq rfl
      · exact stays
  | _ => exact stays

/-- Other actions keep reads isolated. -/
theorem perform {commit : QueryTree} {execution : Execution} {action : Action}
    (fresh : action.IsFresh) (external : ¬action.IsTurn)
    (isolated : execution.world.IsIsolated deployment commit) :
    (deployment.schedule.perform execution action).world.IsIsolated deployment commit ∧
      execution.world.catalog.Advances
        (deployment.schedule.perform execution action).world.catalog := by
  cases action with
  | arrive source tuple =>
      refine ⟨⟨isolated.mode, isolated.coherent, ?_⟩, .refl _⟩
      exact isolated.carries.modifyArrivals fun header _ _ => fresh.observed _
  | load place row =>
      exact isolated.changeRelation fun relation => ⟨rfl, Nat.le_refl _⟩
  | update place change =>
      exact isolated.changeRelation fun relation => ⟨rfl, Nat.le_succ _⟩
  | collect operator =>
      refine ⟨⟨isolated.mode, isolated.coherent, ?_⟩, .refl _⟩
      exact isolated.carries.modifyOutput Channel.shrinks_clear
  | setBatchCount count => exact ⟨isolated, .refl _⟩
  | wakeUp => exact absurd trivial external

end World.IsIsolated

end StreamQuery
