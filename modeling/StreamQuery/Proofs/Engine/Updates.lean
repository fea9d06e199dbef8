import StreamQuery.Proofs.Engine.Deployment
import StreamQuery.Proofs.Engine.Firing

/-!
# Relations during runs

Concurrency control changes nothing about relations but their locks. Between two moments of a run, a
relation into which no row is loaded has the same rows, or it has been updated and has a higher
version; so its version tells its rows.
-/

namespace StreamQuery

/-- Whether an action loads a row. -/
def Action.IsLoad : Action → Prop
  | load _ _ => True
  | _ => False

/-- The same rows and version as before, or a later version. -/
def Snapshot.Precedes (before after : Snapshot) : Prop :=
  after = before ∨ before.version < after.version

namespace Snapshot.Precedes

theorem refl (snapshot : Snapshot) : snapshot.Precedes snapshot :=
  .inl rfl

theorem trans {first second third : Snapshot} (earlier : first.Precedes second)
    (later : second.Precedes third) : first.Precedes third := by
  rcases earlier with rfl | earlier
  · exact later
  · rcases later with rfl | later
    · exact .inr earlier
    · exact .inr (Nat.lt_trans earlier later)

theorem eq_of_version_eq {before after : Snapshot} (precedes : before.Precedes after)
    (same : before.version = after.version) : before = after := by
  rcases precedes with rfl | later
  · rfl
  · omega

end Snapshot.Precedes

/-- What becomes of a relation: it keeps its identity and its schema. -/
structure Relation.Remains (before after : Relation) : Prop where
  /-- It is the same relation. -/
  id_eq : after.id = before.id
  /-- Its rows have the same attributes. -/
  schema_eq : after.schema = before.schema

namespace Relation

variable {before after : Relation}

/-- A relation of which only the lock has changed remains. -/
theorem Remains.of_unlock_eq (same : after.unlock = before.unlock) : before.Remains after where
  id_eq := show after.unlock.id = before.unlock.id from congrArg id same
  schema_eq := show after.unlock.schema = before.unlock.schema from congrArg schema same

theorem snapshot_eq (same : after.unlock = before.unlock) : after.snapshot = before.snapshot :=
  show after.unlock.snapshot = before.unlock.snapshot from congrArg snapshot same

end Relation

/-! ## Locks -/

namespace Catalog

/-- The relations without their locks. -/
def unlocked (catalog : Catalog) : List Relation :=
  catalog.relations.map Relation.unlock

/-- The same relations, apart from their locks, are read in the same way. -/
structure Agrees (before after : Catalog) : Prop where
  /-- Only locks have changed. -/
  unlocked_eq : after.unlocked = before.unlocked
  /-- The protocol is the same. -/
  mode_eq : after.access.mode = before.access.mode

namespace Agrees

variable {catalog : Catalog}

theorem refl (catalog : Catalog) : catalog.Agrees catalog :=
  ⟨rfl, rfl⟩

theorem of_eq {after : Catalog} (same : after = catalog) : catalog.Agrees after :=
  same ▸ refl catalog

theorem trans {first second third : Catalog} (earlier : first.Agrees second)
    (later : second.Agrees third) : first.Agrees third :=
  ⟨later.unlocked_eq.trans earlier.unlocked_eq, later.mode_eq.trans earlier.mode_eq⟩

/-- A relation is found again, apart from its lock. -/
theorem exists_relation {after : Catalog} (agrees : catalog.Agrees after) {place : Nat}
    {relation : Relation} (found : catalog.relations[place]? = some relation) :
    ∃ later, after.relations[place]? = some later ∧ later.unlock = relation.unlock := by
  have unlocked_found : after.unlocked[place]? = some relation.unlock := by
    rw [agrees.unlocked_eq, unlocked, List.getElem?_map, found]
    rfl
  rw [unlocked, List.getElem?_map] at unlocked_found
  exact Option.map_eq_some_iff.mp unlocked_found

end Agrees

theorem unlocked_modify (catalog : Catalog) (place : Nat) {change : Relation → Relation}
    (locks : ∀ relation : Relation, (change relation).unlock = relation.unlock) :
    (catalog.modify place change).unlocked = catalog.unlocked := by
  refine List.ext_getElem? fun other => ?_
  simp only [unlocked, modify, List.getElem?_map, List.getElem?_modify]
  cases catalog.relations[other]? with
  | none => rfl
  | some relation =>
      by_cases same : place = other <;> simp [same, locks]

theorem readRelation_agrees (catalog : Catalog) (place : Nat) (relation : Relation) :
    catalog.Agrees (catalog.readRelation place relation).2 := by
  rw [readRelation]
  cases mode : catalog.access.mode with
  | twoPhaseLocking =>
      simp only
      split
      · exact .refl catalog
      · exact ⟨catalog.unlocked_modify place fun _ => rfl, mode.symm⟩
  | snapshot =>
      simp only
      split
      · exact .refl catalog
      · exact ⟨rfl, rfl⟩
  | uncontrolled => exact .refl catalog
  | optimistic => exact .refl catalog

theorem endTransactionAt_agrees (catalog : Catalog) (place : Nat) (mode : Mode) :
    catalog.Agrees (catalog.endTransactionAt place mode) := by
  rw [endTransactionAt]
  split
  · cases mode with
    | twoPhaseLocking =>
        rw [endTransaction]
        simp only
        split
        · exact ⟨catalog.unlocked_modify _ fun _ => rfl, rfl⟩
        · exact .refl catalog
    | snapshot => exact ⟨rfl, rfl⟩
    | uncontrolled => exact .refl catalog
    | optimistic => exact .refl catalog
  · exact .refl catalog

end Catalog

namespace World

/-- The relation at a place. -/
def relation? (world : World) (place : Nat) : Option Relation :=
  world.catalog.relations[place]?

theorem changeRelation_relation? {world : World} {place : Nat} {relation : Relation}
    (found : world.relation? place = some relation) (changed : Nat)
    (change : Relation → Relation) :
    (world.changeRelation changed change).relation? place = some relation ∨
      changed = place ∧
        (world.changeRelation changed change).relation? place = some (change relation) := by
  simp only [relation?, changeRelation, Catalog.modify] at found ⊢
  by_cases same : changed = place
  · subst same
    rw [List.getElem?_modify_eq, found, Option.map_eq_map, Option.map_some]
    split
    · exact .inl rfl
    · exact .inr ⟨rfl, rfl⟩
  · left
    rw [List.getElem?_modify_ne _ _ same, found]

theorem evaluate_agrees (world : World) (role : CommitRole) (operator : QueryTree) :
    world.catalog.Agrees (world.evaluate role operator).1.catalog := by
  rcases world.evaluate_catalog role operator with
    unchanged | ⟨_, reference, _, _, relation, snapshot, _, _, read⟩
  · exact .of_eq unchanged
  · have agrees := world.catalog.readRelation_agrees reference.place relation
    rwa [read] at agrees

theorem endTransactions_agrees (world : World) (mode : Mode) (operators : List QueryTree) :
    world.catalog.Agrees (world.endTransactions mode operators).catalog := by
  induction operators generalizing world with
  | nil => exact .refl _
  | cons operator operators induction =>
      simp only [endTransactions, List.foldl_cons] at induction ⊢
      cases operator.relation? with
      | none => exact induction world
      | some relation =>
          exact (world.catalog.endTransactionAt_agrees relation.place mode).trans
            (induction { world with catalog := world.catalog.endTransactionAt relation.place mode })

theorem evaluate_catalog_of_optimistic {world : World}
    (mode : world.catalog.access.mode = .optimistic) (role : CommitRole) (operator : QueryTree) :
    (world.evaluate role operator).1.catalog = world.catalog := by
  rcases world.evaluate_catalog role operator with
    unchanged | ⟨_, reference, _, _, relation, snapshot, _, _, read⟩
  · exact unchanged
  · simp only [Catalog.readRelation, mode] at read
    exact (Prod.mk.inj read).2.symm

end World

namespace Schedule

variable {schedule : Schedule} {execution : Execution}

theorem react_catalog_of_optimistic (mode : schedule.mode = .optimistic) (execution : Execution)
    (step : Step) : (schedule.react execution step).world.catalog = execution.world.catalog := by
  simp only [react, mode]
  cases step with
  | lostConsistency committed? =>
      cases committed? <;>
        simp [reactOptimistically, redoArea, commitBefore, modifyInlets, restartArea,
          Execution.countCommit]
  | commit mark => simp [reactOptimistically, commitBefore, modifyInlets, Execution.countCommit]
  | _ => rfl

/-- Under optimistic control an evaluation and the reaction to it leave the catalog as it is. -/
theorem react_catalog_of_evaluate (mode : schedule.mode = .optimistic) {world after : World}
    (access : world.catalog.access.mode = .optimistic) {role : CommitRole} {operator : QueryTree}
    {step : Step} (evaluated : world.evaluate role operator = (after, .ok step))
    (world_eq : execution.world = after) :
    (schedule.react execution step).world.catalog = world.catalog := by
  have kept := World.evaluate_catalog_of_optimistic access role operator
  rw [evaluated] at kept
  rw [react_catalog_of_optimistic mode, world_eq]
  exact kept

theorem react_agrees (schedule : Schedule) (execution : Execution) (step : Step) :
    execution.world.catalog.Agrees (schedule.react execution step).world.catalog := by
  refine schedule.react_preserves (fun world => execution.world.catalog.Agrees world.catalog)
    (fun world change _ agrees => ?_) (fun world agrees => ?_) (fun world agrees => ?_) step
    (.refl _)
  · rwa [World.modifyOutputs_catalog]
  · rwa [World.restart_catalog]
  · exact agrees.trans (world.endTransactions_agrees _ _)

/-- A turn of the scheduler changes nothing about relations but their locks. -/
theorem wakeUp_agrees (schedule : Schedule) (execution : Execution) :
    execution.world.catalog.Agrees (schedule.wakeUp execution).1.world.catalog := by
  have preserves : schedule.Preserves (fun _ => False) fun _ world =>
      execution.world.catalog.Agrees world.catalog := by
    refine ⟨fun log world operator after error _ agrees evaluated => ?_,
      fun log world operator after step following _ agrees evaluated world_eq => ?_,
      fun _ _ _ impossible => impossible.elim⟩
    · have next := world.evaluate_agrees (schedule.role operator.id) operator
      rw [evaluated] at next
      exact agrees.trans next
    · have next := world.evaluate_agrees (schedule.role operator.id) operator
      rw [evaluated, ← world_eq] at next
      exact (agrees.trans next).trans (schedule.react_agrees following step)
  exact @Preserves.turn _ _ _ preserves [] execution (.refl _)

theorem perform_mode (schedule : Schedule) (execution : Execution) (action : Action) :
    (schedule.perform execution action).world.catalog.access.mode =
      execution.world.catalog.access.mode := by
  cases action with
  | wakeUp => exact (schedule.wakeUp_agrees execution).mode_eq
  | _ => rfl

/-- What one action does to a relation. -/
theorem perform_relation? {place : Nat} {relation : Relation}
    (found : execution.world.relation? place = some relation) (schedule : Schedule)
    (action : Action) :
    ∃ later, (schedule.perform execution action).world.relation? place = some later ∧
      relation.Remains later ∧
      (¬action.IsLoad → relation.snapshot.Precedes later.snapshot) := by
  cases action with
  | load changed row =>
      rcases World.changeRelation_relation? found changed _ with kept | ⟨_, grown⟩
      · exact ⟨relation, kept, ⟨rfl, rfl⟩, fun _ => .refl _⟩
      · exact ⟨_, grown, ⟨rfl, rfl⟩, fun no_load => absurd trivial no_load⟩
  | update changed change =>
      rcases World.changeRelation_relation? found changed _ with kept | ⟨_, updated⟩
      · exact ⟨relation, kept, ⟨rfl, rfl⟩, fun _ => .refl _⟩
      · exact ⟨_, updated, ⟨rfl, rfl⟩, fun _ => .inr (Nat.lt_succ_self _)⟩
  | wakeUp =>
      obtain ⟨later, later_found, same⟩ := (schedule.wakeUp_agrees execution).exists_relation found
      exact ⟨later, later_found, .of_unlock_eq same, fun _ => .inl (Relation.snapshot_eq same)⟩
  | _ => exact ⟨relation, found, ⟨rfl, rfl⟩, fun _ => .refl _⟩

/-- What a run does to a relation. -/
theorem performAll_relation? {place : Nat} {relation : Relation}
    (found : execution.world.relation? place = some relation) (schedule : Schedule)
    (actions : List Action) :
    ∃ later, (schedule.performAll execution actions).world.relation? place = some later ∧
      relation.Remains later ∧
      ((∀ action ∈ actions, ¬action.IsLoad) → relation.snapshot.Precedes later.snapshot) := by
  induction actions generalizing execution relation with
  | nil => exact ⟨relation, found, ⟨rfl, rfl⟩, fun _ => .refl _⟩
  | cons action actions induction =>
      obtain ⟨next, next_found, remains, precedes⟩ := perform_relation? found schedule action
      obtain ⟨later, later_found, later_remains, later_precedes⟩ := induction next_found
      refine ⟨later, later_found, ⟨?_, ?_⟩, fun no_loads => ?_⟩
      · exact later_remains.id_eq.trans remains.id_eq
      · exact later_remains.schema_eq.trans remains.schema_eq
      · exact (precedes (no_loads action (by simp))).trans
          (later_precedes fun other member => no_loads other (by simp [member]))

theorem performAll_mode (schedule : Schedule) (execution : Execution) (actions : List Action) :
    (schedule.performAll execution actions).world.catalog.access.mode =
      execution.world.catalog.access.mode := by
  induction actions generalizing execution with
  | nil => rfl
  | cons action actions induction =>
      exact (induction (schedule.perform execution action)).trans
        (schedule.perform_mode execution action)

theorem performAll_append (schedule : Schedule) (execution : Execution)
    (earlier later : List Action) :
    schedule.performAll execution (earlier ++ later) =
      schedule.performAll (schedule.performAll execution earlier) later := by
  rw [performAll, performAll, performAll, List.foldl_append]

theorem trace_append (schedule : Schedule) (execution : Execution) (earlier later : List Action) :
    schedule.trace execution (earlier ++ later) =
      schedule.trace execution earlier ++
        schedule.trace (schedule.performAll execution earlier) later := by
  induction earlier generalizing execution with
  | nil => rfl
  | cons action earlier induction =>
      rw [List.cons_append, trace, induction, trace, List.append_assoc]
      rfl

end Schedule

namespace Deployment

variable {deployment : Deployment}

theorem run_append_singleton (deployment : Deployment) (actions : List Action) (action : Action) :
    deployment.run (actions ++ [action]) =
      deployment.schedule.perform (deployment.run actions) action :=
  deployment.schedule.performAll_append deployment.start actions [action]

theorem trace_append_singleton (deployment : Deployment) (actions : List Action)
    (action : Action) :
    deployment.trace (actions ++ [action]) =
      deployment.trace actions ++
        deployment.schedule.actionFirings (deployment.run actions) action := by
  rw [trace, Schedule.trace_append, Schedule.trace, Schedule.trace, List.append_nil]
  rfl

/-- Relations are read under the protocol of the deployment throughout every run. -/
theorem run_mode (deployment : Deployment) (actions : List Action) :
    (deployment.run actions).world.catalog.access.mode = deployment.config.mode := by
  rw [run, Schedule.performAll_mode, start_catalog, ← deployment.mode_eq]
  rfl

/-- A declared relation is there throughout every run. -/
theorem run_relation? {place : Nat} {declared : RelationDeclaration}
    (found : deployment.query.relations[place]? = some declared) (actions : List Action) :
    ∃ relation, (deployment.run actions).world.relation? place = some relation ∧
      relation.id = place ∧ relation.schema = declared.schema := by
  have start_found : deployment.start.world.relation? place =
      some { id := place, name := declared.name, schema := declared.schema } := by
    rw [World.relation?, start_catalog]
    simp [World.initial, found]
  obtain ⟨later, later_found, remains, _⟩ :=
    Schedule.performAll_relation? start_found deployment.schedule actions
  exact ⟨later, later_found, remains.id_eq, remains.schema_eq⟩

/-- The rows and the version of a relation after some actions. -/
def snapshotAfter (deployment : Deployment) (place : Nat) (actions : List Action) :
    Option Snapshot :=
  ((deployment.run actions).world.relation? place).map Relation.snapshot

/-- As long as no row is loaded, a relation goes forward. -/
theorem snapshotAfter_precedes {place : Nat} {declared : RelationDeclaration}
    (found : deployment.query.relations[place]? = some declared) {earlier later : List Action}
    (no_loads : ∀ action ∈ later, ¬action.IsLoad) {before after : Snapshot}
    (before_eq : deployment.snapshotAfter place earlier = some before)
    (after_eq : deployment.snapshotAfter place (earlier ++ later) = some after) :
    before.Precedes after := by
  obtain ⟨relation, relation_found, _⟩ := run_relation? found earlier
  obtain ⟨final, final_found, _, precedes⟩ :=
    Schedule.performAll_relation? relation_found deployment.schedule later
  rw [snapshotAfter, relation_found] at before_eq
  rw [snapshotAfter, run, Schedule.performAll_append, ← run, final_found] at after_eq
  obtain rfl := Option.some.inj before_eq
  obtain rfl := Option.some.inj after_eq
  exact precedes no_loads

end Deployment

end StreamQuery
