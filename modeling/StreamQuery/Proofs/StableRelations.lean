import StreamQuery.Proofs.Engine.Bare
import StreamQuery.Proofs.Pipeline.Runs
import StreamQuery.Proofs.TwoPhaseLocking

/-!
# Stable relations

While no relation is updated, all stamps of a relation tell the same version, so that every window
is consistent. Optimistic control then has nothing to repeat: with one evaluation in each wake-up
the query runs as it does without control, apart from the precautions.
-/

namespace StreamQuery

/-- An action that updates no relation, brings no stamps, and lets a wake-up evaluate once. -/
def Action.IsStable : Action → Prop
  | .arrive _ tuple => tuple.stamps = {}
  | .load _ _ => True
  | .update _ _ => False
  | .collect _ => True
  | .setBatchCount count => count ≤ 1
  | .wakeUp => True

instance : DecidablePred Action.IsStable
  | .arrive _ tuple => inferInstanceAs (Decidable (tuple.stamps = {}))
  | .load _ _ => .isTrue trivial
  | .update _ _ => .isFalse id
  | .collect _ => .isTrue trivial
  | .setBatchCount count => inferInstanceAs (Decidable (count ≤ 1))
  | .wakeUp => .isTrue trivial

/-! ## Stamps -/

/-- A tuple whose stamps are entries of the given versions. -/
def Tuple.IsStampedWith (versions : RelationId → Option Nat) (tuple : Tuple) : Prop :=
  ∀ entry ∈ tuple.stamps.entries, versions entry.1 = some entry.2

/-- All tuples are stamped with the given versions. -/
def stampedFlow (versions : RelationId → Option Nat) : FlowInvariant where
  holds _ tuple := tuple.IsStampedWith versions
  keeps _ := True

/-- Operators stamp with the same versions again, if these are what a read shows. -/
theorem Yields.isStampedWith {before after : Catalog} {role : CommitRole}
    {versions : RelationId → Option Nat} {operator : QueryTree} {result : Tuple}
    (yields :
      Yields before after role (fun _ tuple => tuple.IsStampedWith versions) operator result)
    (shown : ∀ place relation snapshot, before.relations[place]? = some relation →
      before.readRelation place relation = (snapshot, after) →
      versions relation.id = some snapshot.version) : result.IsStampedWith versions := by
  cases yields with
  | arrived stamped => exact stamped
  | passed stamped _ => exact stamped
  | projected stamped projected =>
      obtain ⟨_, stamps_eq, _⟩ := projectTuple_eq_ok projected
      rwa [Tuple.IsStampedWith, stamps_eq]
  | matched stamped found read =>
      intro entry member
      rcases Stamps.mem_set_entries member with rfl | earlier
      · exact shown _ _ _ found read
      · exact stamped entry earlier
  | aggregated stamped _ computed =>
      obtain ⟨_, stamps_eq, _⟩ := AggregateFunction.apply_eq_ok computed
      intro entry member
      rw [stamps_eq] at member
      obtain ⟨_, stamps_mem, entry_mem⟩ := Stamps.mem_unions_entries member
      obtain ⟨tuple, tuple_mem, rfl⟩ := List.mem_map.mp stamps_mem
      exact stamped tuple tuple_mem entry entry_mem
  | paired left_stamped right_stamped =>
      intro entry member
      rcases Stamps.mem_union_entries member with in_left | in_right
      · exact left_stamped entry in_left
      · exact right_stamped entry in_right
  | ended _ stamped _ => exact stamped

/-! ## Worlds -/

/-- Under optimistic control, all stamps and all relations have the given versions. -/
structure World.IsStable (deployment : Deployment) (versions : RelationId → Option Nat)
    (world : World) : Prop where
  /-- Relations are read as they are. -/
  mode : world.catalog.access.mode = .optimistic
  /-- Relations have these versions. -/
  shown : ∀ (place : Nat) (relation : Relation),
    world.catalog.relations[place]? = some relation → versions relation.id = some relation.version
  /-- Stamps tell these versions. -/
  carries : world.Carries (stampedFlow versions) deployment.tree
  /-- The windows of the commit operator were consistent. -/
  balanced : ∀ header window index input, deployment.HasCommit header window index input →
    world.CellAt header.id Cell.IsBalanced

namespace World.IsStable

variable {deployment : Deployment} {versions : RelationId → Option Nat} {world : World}
  {operator : QueryTree} {execution : Execution}

/-- Every window is consistent. -/
theorem isConsistent (stable : world.IsStable deployment versions)
    (member : operator ∈ deployment.tree.postOrder) {window : Contents}
    (completed : window ∈ world.completedWindows operator) : window.isConsistent = true := by
  obtain ⟨header, extent, function, input, rfl⟩ : ∃ header extent function input,
      operator = .single header (.aggregate extent function) input := by
    simp only [completedWindows] at completed
    split at completed
    · exact ⟨_, _, _, _, rfl⟩
    · cases completed
  refine Contents.isConsistent_of_versions versions fun entry stamped => ?_
  obtain ⟨tuple, inside, entry_mem⟩ := List.mem_flatMap.mp stamped
  exact holds_of_mem_completedWindows stable.carries member completed inside entry entry_mem

theorem evaluate (stable : world.IsStable deployment versions) (role : CommitRole)
    (member : operator ∈ deployment.tree.postOrder) :
    (world.evaluate role operator).1.IsStable deployment versions := by
  have catalog_eq := evaluate_catalog_of_optimistic stable.mode role operator
  refine ⟨catalog_eq ▸ stable.mode, catalog_eq ▸ stable.shown, ?_,
    fun header window index input commit => ?_⟩
  · refine stable.carries.evaluate deployment.ids_nodup member (deployment.input_id_ne member)
      fun result yields => yields.isStampedWith fun place relation snapshot found read => ?_
    rw [Catalog.readRelation, stable.mode] at read
    obtain ⟨rfl, _⟩ := Prod.mk.inj read
    exact stable.shown place relation found
  · exact commit.evaluate_balanced stable.carries member role
      (fun _ _ completed => stable.isConsistent member completed)
      (stable.balanced header window index input commit)

theorem react (optimistic : deployment.schedule.mode = .optimistic)
    (stable : execution.world.IsStable deployment versions) (step : Step) :
    (deployment.schedule.react execution step).world.IsStable deployment versions := by
  have catalog_eq := Schedule.react_catalog_of_optimistic optimistic execution step
  refine ⟨catalog_eq ▸ stable.mode, catalog_eq ▸ stable.shown, ?_,
    fun header window index input commit => ?_⟩
  · exact Schedule.react_preserves (·.Carries (stampedFlow versions) deployment.tree)
      (fun _ _ shrinks carries => carries.modifyOutputs shrinks) (fun _ carries => carries.restart)
      (fun _ carries => carries) step stable.carries
  · exact (stable.balanced header window index input commit).react deployment.schedule step

theorem perform {action : Action} (stable : execution.world.IsStable deployment versions)
    (allowed : action.IsStable) (external : ¬action.IsTurn) :
    (deployment.schedule.perform execution action).world.IsStable deployment versions := by
  have balanced (header : OperatorHeader) (window : Window) (index : Nat) (input : QueryTree)
      (commit : deployment.HasCommit header window index input) :=
    (stable.balanced header window index input commit).perform deployment.schedule external
  cases action with
  | arrive source tuple =>
      refine ⟨stable.mode, stable.shown, ?_, balanced⟩
      refine stable.carries.modifyArrivals fun header entry member => ?_
      rw [show tuple.stamps = {} from allowed] at member
      cases member
  | load place row =>
      refine ⟨stable.mode, fun other relation found => ?_, stable.carries.of_cells_eq rfl, balanced⟩
      have shown_before := stable.shown other
      simp only [Schedule.perform, changeRelation, Catalog.modify, List.getElem?_modify] at found
      cases old_found : execution.world.catalog.relations[other]? with
      | none => simp [old_found] at found
      | some old =>
          have old_shown := shown_before old old_found
          simp only [old_found, Option.map_eq_map, Option.map_some, Option.some.injEq] at found
          subst found
          split
          · split <;> exact old_shown
          · exact old_shown
  | update place change => exact allowed.elim
  | collect operator =>
      exact ⟨stable.mode, stable.shown, stable.carries.modifyOutput Channel.shrinks_clear, balanced⟩
  | setBatchCount count => exact stable
  | wakeUp => exact absurd trivial external

theorem preserves (controlled : deployment.config.mode = .optimistic)
    (versions : RelationId → Option Nat) :
    deployment.schedule.Preserves Action.IsStable fun _ world =>
      world.IsStable deployment versions := by
  refine ⟨fun log world operator after error member stable evaluated => ?_,
    fun log world operator after step execution member stable evaluated world_eq => ?_,
    fun log execution action allowed external stable => stable.perform allowed external⟩
  · have next :=
      stable.evaluate (deployment.schedule.role operator.id) (deployment.order_eq ▸ member)
    rwa [evaluated] at next
  · have next :=
      stable.evaluate (deployment.schedule.role operator.id) (deployment.order_eq ▸ member)
    rw [evaluated, ← world_eq] at next
    exact next.react (deployment.mode_eq.trans controlled) step

end World.IsStable

/-! ## Runs -/

namespace Deployment

variable {controlled plain : Deployment} {loading actions : List Action}

/-- Once relations are loaded they are stable. -/
theorem isStable_run (optimistic : controlled.config.mode = .optimistic)
    (changes : ∀ action ∈ loading, action.ChangesRelations)
    (stable : ∀ action ∈ actions, action.IsStable) :
    ∃ versions, (controlled.run (loading ++ actions)).world.IsStable controlled versions := by
  obtain ⟨cells_eq, _⟩ := Schedule.performAll_of_changesRelations changes controlled.start
  have coherent : (controlled.run loading).world.catalog.IsCoherent :=
    (Schedule.performAll_kept? changes controlled.start_isCoherent).1
  have loaded : (controlled.run loading).world.IsStable controlled fun id =>
      ((controlled.run loading).world.relation? id).map Relation.version := by
    refine ⟨(controlled.run_mode loading).trans optimistic, fun place relation found => ?_,
      (controlled.start_carries fun _ _ _ => trivial).of_cells_eq cells_eq,
      fun header window index input commit => ?_⟩
    · rw [coherent.id_eq place relation found]
      exact congrArg (Option.map Relation.version) found
    · obtain ⟨cell, found, balanced⟩ := start_balanced commit
      exact ⟨cell, cells_eq ▸ found, balanced⟩
  have later := @Schedule.Preserves.run _ _ _ (World.IsStable.preserves optimistic _) _ stable []
    _ loaded
  rw [run, ← Schedule.performAll_append] at later
  exact ⟨_, later⟩

/-- Deployments with the same declarations and the same root run the same query. -/
theorem query_eq (same_declarations : plain.declarations = controlled.declarations) :
    plain.query = controlled.query := by
  have built := plain.built
  rw [same_declarations, controlled.built] at built
  exact (Except.ok.inj built).symm

theorem tree_eq (same_declarations : plain.declarations = controlled.declarations)
    (same_root : plain.root = controlled.root) : plain.tree = controlled.tree := by
  have planned := plain.planned
  rw [query_eq same_declarations, same_root, controlled.planned] at planned
  exact (Except.ok.inj planned).symm

theorem bare_initial (query : Query) :
    (World.initial query .optimistic).bare = World.initial query .uncontrolled := by
  simp [World.initial, World.bare, Catalog.bare, Cell.initial, Cell.bare, Channel.bare]

/-- One query with one evaluation in each wake-up, under optimistic control and without control. -/
structure IsPlain (plain controlled : Deployment) : Prop where
  /-- The queries are built from the same declarations. -/
  declarations_eq : plain.declarations = controlled.declarations
  /-- They have the same root. -/
  root_eq : plain.root = controlled.root
  /-- One of them is under optimistic control. -/
  optimistic : controlled.config.mode = .optimistic
  /-- The other one is not under control. -/
  uncontrolled : plain.config.mode = .uncontrolled
  /-- A wake-up of the one evaluates once. -/
  single : controlled.config.batchCount = 1
  /-- So does a wake-up of the other. -/
  plain_single : plain.config.batchCount = 1

/-- Without the precautions, the start under optimistic control is that without control. -/
theorem IsPlain.bare_start (same : plain.IsPlain controlled) :
    plain.start = controlled.start.bare := by
  have controlled_world : controlled.start.world.bare =
      World.initial controlled.query .uncontrolled := by
    rw [start, Schedule.start, controlled.mode_eq, same.optimistic]
    split
    · have unseen (channel : Channel) : (channel.setProtected true).bare = channel.bare := rfl
      exact (World.bare_modifyOutputs _ _ unseen).trans (bare_initial _)
    · exact bare_initial _
  have plain_world : plain.start.world = World.initial controlled.query .uncontrolled := by
    rw [start, Schedule.start, plain.mode_eq, same.uncontrolled,
      plain.redo_of_uncontrolled same.uncontrolled, query_eq same.declarations_eq]
    exact ite_self _
  rw [Execution.bare, controlled_world, ← plain_world]
  simp [start, Schedule.start, same.single, same.plain_single]

/-- A run that is the same without control and under optimistic control, which repeats nothing. -/
structure RunsAlike (plain controlled : Deployment) (actions : List Action) : Prop where
  /-- The states differ in precautions only. -/
  state_eq : plain.run actions = (controlled.run actions).bare
  /-- A wake-up evaluates once. -/
  single : (controlled.run actions).batchCount = 1
  /-- There was no repetition. -/
  unrepeated : (controlled.run actions).metrics.redoCount = 0

namespace RunsAlike

/-- What happens apart from wake-ups is the same with and without control. -/
theorem append_external (alike : plain.RunsAlike controlled actions) {action : Action}
    (external : ¬action.IsTurn)
    (single : (controlled.schedule.perform (controlled.run actions) action).batchCount = 1) :
    plain.RunsAlike controlled (actions ++ [action]) := by
  refine ⟨?_, ?_, ?_⟩
  · rw [run_append_singleton, run_append_singleton, alike.state_eq]
    exact Schedule.bare_perform external
  · rwa [run_append_singleton]
  · rw [run_append_singleton, Schedule.metrics_perform _ _ external]
    exact alike.unrepeated

/-- A wake-up is the same with and without control. -/
theorem wakeUp_eq (alike : plain.RunsAlike controlled actions) (same : plain.IsPlain controlled)
    {versions : RelationId → Option Nat}
    (stable : (controlled.run actions).world.IsStable controlled versions) :
    plain.schedule.wakeUp (plain.run actions) =
        ((controlled.schedule.wakeUp (controlled.run actions)).1.bare,
          (controlled.schedule.wakeUp (controlled.run actions)).2) ∧
      (controlled.schedule.wakeUp (controlled.run actions)).1.metrics.redoCount =
        (controlled.run actions).metrics.redoCount ∧
      (controlled.schedule.wakeUp (controlled.run actions)).1.batchCount =
        (controlled.run actions).batchCount := by
  have schedule_tree (deployment : Deployment) : deployment.schedule.tree = deployment.tree := by
    obtain ⟨accepted, _, schedule_eq⟩ := deployment.schedule_spec
    rw [schedule_eq]
  have same_tree : plain.schedule.tree = controlled.schedule.tree := by
    rw [schedule_tree, schedule_tree, tree_eq same.declarations_eq same.root_eq]
  rw [alike.state_eq]
  refine Schedule.bare_wakeUp same_tree (controlled.mode_eq.trans same.optimistic)
    (plain.mode_eq.trans same.uncontrolled) alike.single stable.mode (fun operator member => ?_)
    fun operator member window completed => ?_
  · exact controlled.input_id_ne (controlled.order_eq ▸ member)
  · exact stable.isConsistent (controlled.order_eq ▸ member) completed

end RunsAlike

namespace IsPlain

theorem runsAlike_loading (same : plain.IsPlain controlled)
    (changes : ∀ action ∈ loading, action.ChangesRelations) :
    plain.RunsAlike controlled loading := by
  induction loading using List.reverseRecOn with
  | nil => exact ⟨same.bare_start, same.single, rfl⟩
  | append_singleton earlier action induction =>
      have alike := induction fun other member => changes other (List.mem_append_left _ member)
      have action_changes := changes action (by simp)
      cases action with
      | load place row => exact alike.append_external id alike.single
      | update place change => exact alike.append_external id alike.single
      | _ => cases action_changes

theorem runsAlike (same : plain.IsPlain controlled)
    (changes : ∀ action ∈ loading, action.ChangesRelations)
    (stable : ∀ action ∈ actions, action.IsStable) :
    plain.RunsAlike controlled (loading ++ actions) := by
  induction actions using List.reverseRecOn with
  | nil => exact (List.append_nil loading).symm ▸ same.runsAlike_loading changes
  | append_singleton earlier action induction =>
      have earlier_stable : ∀ other ∈ earlier, other.IsStable :=
        fun other member => stable other (List.mem_append_left _ member)
      have alike := induction earlier_stable
      have allowed := stable action (by simp)
      rw [← List.append_assoc]
      cases action with
      | wakeUp =>
          obtain ⟨versions, stable_world⟩ := isStable_run same.optimistic changes earlier_stable
          obtain ⟨woken, redoCount_eq, batchCount_eq⟩ := alike.wakeUp_eq same stable_world
          refine ⟨?_, ?_, ?_⟩
          · rw [run_append_singleton, run_append_singleton]
            exact congrArg Prod.fst woken
          · rw [run_append_singleton]
            exact batchCount_eq.trans alike.single
          · rw [run_append_singleton]
            exact redoCount_eq.trans alike.unrepeated
      | setBatchCount count => exact alike.append_external id (Nat.max_eq_right allowed)
      | update place change => cases allowed
      | _ => exact alike.append_external id alike.single

end IsPlain

end Deployment

/-- While no relation is updated, a query with one evaluation in each wake-up runs under optimistic
control as it does without control: after every sequence of actions the states differ in backups and
the count of commits only, and the next wake-up reports the same. Nothing is ever repeated, and all
windows of the commit operator were consistent. -/
theorem optimistic_run_eq_uncontrolled (controlled plain : Deployment)
    (same_declarations : plain.declarations = controlled.declarations)
    (same_root : plain.root = controlled.root)
    (optimistic : controlled.config.mode = .optimistic)
    (uncontrolled : plain.config.mode = .uncontrolled)
    (single : controlled.config.batchCount = 1) (plain_single : plain.config.batchCount = 1)
    {loading actions : List Action} (changes : ∀ action ∈ loading, action.ChangesRelations)
    (stable : ∀ action ∈ actions, action.IsStable) :
    plain.run (loading ++ actions) = (controlled.run (loading ++ actions)).bare ∧
      (plain.schedule.wakeUp (plain.run (loading ++ actions))).2 =
        (controlled.schedule.wakeUp (controlled.run (loading ++ actions))).2 ∧
      (controlled.run (loading ++ actions)).metrics.redoCount = 0 ∧
      ∀ commit, controlled.tree.commitOperator? = some commit →
        ∃ aggregation,
          ((controlled.run (loading ++ actions)).world.cells[commit.id]?.bind fun cell =>
            cell.memory.aggregation?) = some aggregation ∧
          aggregation.evaluated = aggregation.consistent := by
  have same : plain.IsPlain controlled :=
    ⟨same_declarations, same_root, optimistic, uncontrolled, single, plain_single⟩
  have alike := same.runsAlike changes stable
  obtain ⟨versions, stable_world⟩ := Deployment.isStable_run optimistic changes stable
  obtain ⟨woken, _⟩ := alike.wakeUp_eq same stable_world
  have report_eq := congrArg Prod.snd woken
  refine ⟨alike.state_eq, report_eq, alike.unrepeated, fun commit found => ?_⟩
  obtain ⟨header, window, index, input, rfl, has_commit⟩ :=
    controlled.hasCommit_of_commitOperator? found
  obtain ⟨cell, cell_found, aggregation, memory_eq, counters_eq⟩ :=
    stable_world.balanced header window index input has_commit
  exact ⟨aggregation, Option.bind_eq_some_iff.mpr ⟨cell, cell_found, by rw [memory_eq]; rfl⟩,
    counters_eq⟩

/-- Priced sales are joined with limits under optimistic control. -/
def limitedOptimistic : Deployment :=
  (Deployment.ofDeclarations? limitedDeclarations "mean" (.ofMode .optimistic)).get (by decide)

/-- The same query without control. -/
def limitedUncontrolled : Deployment :=
  (Deployment.ofDeclarations? limitedDeclarations "mean" (.ofMode .uncontrolled)).get (by decide)

/-- A price is loaded and changed before the query runs. -/
def limitedLoading : List Action :=
  [.load 0 (.ofInts priceSchema [1, 10] 0), .update 0 fun _ => [.ofInts priceSchema [1, 20] 0]]

/-- Sales arrive between wake-ups. -/
def limitedSales : List Action :=
  [.arrive 1 (.ofInts limitSchema [7] 0), .arrive 0 (.ofInts goodsSchema [1] 1)] ++
    List.replicate 6 .wakeUp ++
    [.arrive 0 (.ofInts goodsSchema [1] 2)] ++
    List.replicate 9 .wakeUp

set_option maxRecDepth 10000 in
theorem limitedOptimistic_run_eq_uncontrolled :
    (limitedUncontrolled.declarations = limitedOptimistic.declarations ∧
      limitedUncontrolled.root = limitedOptimistic.root ∧
      limitedOptimistic.config.mode = .optimistic ∧
      limitedUncontrolled.config.mode = .uncontrolled ∧
      limitedOptimistic.config.batchCount = 1 ∧ limitedUncontrolled.config.batchCount = 1 ∧
      (∀ action ∈ limitedLoading, action.ChangesRelations) ∧
      (∀ action ∈ limitedSales, action.IsStable) ∧
      (limitedOptimistic.run (limitedLoading ++ limitedSales)).metrics.commits = 1) ∧
      limitedUncontrolled.run (limitedLoading ++ limitedSales) =
        (limitedOptimistic.run (limitedLoading ++ limitedSales)).bare ∧
      (limitedUncontrolled.schedule.wakeUp
          (limitedUncontrolled.run (limitedLoading ++ limitedSales))).2 =
        (limitedOptimistic.schedule.wakeUp
          (limitedOptimistic.run (limitedLoading ++ limitedSales))).2 ∧
      (limitedOptimistic.run (limitedLoading ++ limitedSales)).metrics.redoCount = 0 ∧
      ∀ commit, limitedOptimistic.tree.commitOperator? = some commit →
        ∃ aggregation,
          ((limitedOptimistic.run (limitedLoading ++ limitedSales)).world.cells[commit.id]?.bind
            fun cell => cell.memory.aggregation?) = some aggregation ∧
          aggregation.evaluated = aggregation.consistent :=
  ⟨⟨rfl, rfl, rfl, rfl, rfl, rfl, by decide, by decide, by decide +kernel⟩,
    optimistic_run_eq_uncontrolled limitedOptimistic limitedUncontrolled rfl rfl rfl rfl rfl rfl
      (by decide) (by decide)⟩

end StreamQuery
