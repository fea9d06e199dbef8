import StreamQuery.Proofs.Engine.Deployment
import StreamQuery.Proofs.Engine.Firing
import StreamQuery.Proofs.Provenance

/-!
# Histories

A statement about tuples that is closed under what operators compute holds throughout every run of a
deployment, whatever its protocol: nothing that a scheduler does brings a tuple into the query.
-/

namespace StreamQuery

namespace Catalog

/-- The relations of a catalog stand at the places that they are identified by. -/
def IdsMatch (catalog : Catalog) : Prop :=
  ∀ place (relation : Relation), catalog.relations[place]? = some relation → relation.id = place

variable {catalog : Catalog}

theorem IdsMatch.modify (ids : catalog.IdsMatch) (place : Nat) {change : Relation → Relation}
    (id_eq : ∀ relation, (change relation).id = relation.id) :
    (catalog.modify place change).IdsMatch := by
  intro other relation found
  by_cases same : place = other
  · subst same
    rw [Catalog.modify, List.getElem?_modify_eq] at found
    obtain ⟨old, old_found, rfl⟩ := Option.map_eq_some_iff.mp found
    exact (id_eq old).trans (ids place old old_found)
  · rw [Catalog.modify, List.getElem?_modify_ne _ _ same] at found
    exact ids other relation found

theorem IdsMatch.readRelation (ids : catalog.IdsMatch) (place : Nat) (relation : Relation) :
    (catalog.readRelation place relation).2.IdsMatch := by
  rw [Catalog.readRelation]
  cases catalog.access.mode with
  | twoPhaseLocking =>
      simp only
      split
      · exact ids
      · exact ids.modify place fun _ => rfl
  | snapshot =>
      simp only
      split <;> exact ids
  | _ => exact ids

theorem IdsMatch.endTransactionAt (ids : catalog.IdsMatch) (place : Nat) (mode : Mode) :
    (catalog.endTransactionAt place mode).IdsMatch := by
  rw [Catalog.endTransactionAt]
  split
  · cases mode with
    | twoPhaseLocking =>
        simp only [Catalog.endTransaction]
        split
        · exact ids.modify _ fun _ => rfl
        · exact ids
    | _ => exact ids
  · exact ids

end Catalog

namespace World

variable {flow : FlowInvariant} {tree : QueryTree}

theorem idsMatch_initial (query : Query) (mode : Mode) : (initial query mode).catalog.IdsMatch := by
  intro place relation found
  simp only [initial, List.getElem?_map, List.getElem?_zipIdx, Option.map_map,
    Option.map_eq_some_iff] at found
  obtain ⟨declaration, _, rfl⟩ := found
  simp

theorem idsMatch_evaluate {world : World} (ids : world.catalog.IdsMatch) (role : CommitRole)
    (operator : QueryTree) : (world.evaluate role operator).1.catalog.IdsMatch := by
  rcases world.evaluate_catalog role operator with
    unchanged | ⟨_, reference, _, _, relation, snapshot, _, found, read⟩
  · exact unchanged ▸ ids
  · have next := ids.readRelation reference.place relation
    rwa [read] at next

theorem idsMatch_endTransactions {world : World} (ids : world.catalog.IdsMatch) (mode : Mode)
    (operators : List QueryTree) : (world.endTransactions mode operators).catalog.IdsMatch := by
  rw [endTransactions]
  generalize world.catalog = catalog at ids
  induction operators generalizing catalog with
  | nil => exact ids
  | cons operator operators induction =>
      rw [List.foldl_cons]
      cases operator.relation? with
      | none => exact induction catalog ids
      | some relation => exact induction _ (ids.endTransactionAt relation.place mode)

/-- What the scheduler does in response to a step only takes tuples away. -/
theorem Carries.react (schedule : Schedule) {execution : Execution} (step : Step)
    (carries : execution.world.Carries flow tree) :
    (schedule.react execution step).world.Carries flow tree :=
  Schedule.react_preserves (·.Carries flow tree)
    (fun _ _ shrinks holds => Carries.modifyOutputs holds shrinks)
    (fun _ holds => Carries.restart holds) (fun _ holds => Carries.of_cells_eq holds rfl) step
    carries

theorem idsMatch_react (schedule : Schedule) {execution : Execution} (step : Step)
    (ids : execution.world.catalog.IdsMatch) :
    (schedule.react execution step).world.catalog.IdsMatch := by
  refine Schedule.react_preserves (·.catalog.IdsMatch) ?_ ?_ ?_ step ids
  · intro world change _ holds
    rwa [modifyOutputs_catalog]
  · intro world holds
    rwa [restart_catalog]
  · exact fun world holds => idsMatch_endTransactions holds _ _

end World

/-! ## Runs -/

/-- What arrives in an action is of a certain kind. -/
def Action.Brings (arrives : Tuple → Prop) : Action → Prop
  | .arrive _ tuple => arrives tuple
  | _ => True

instance {arrives : Tuple → Prop} [DecidablePred arrives] : DecidablePred (Action.Brings arrives)
  | .arrive _ tuple => inferInstanceAs (Decidable (arrives tuple))
  | .load _ _ | .update _ _ | .collect _ | .setBatchCount _ | .wakeUp =>
    inferInstanceAs (Decidable True)

theorem Action.IsFresh.brings {action : Action} (fresh : action.IsFresh) :
    action.Brings Tuple.IsFresh := by
  cases action <;> exact fresh

/-- A statement about tuples that operators hand on, whatever relations they read. -/
structure FlowInvariant.IsClosed (flow : FlowInvariant) (arrives : Tuple → Prop) : Prop where
  /-- It holds of what comes from outside. -/
  fresh : ∀ header (tuple : Tuple), arrives tuple → flow.holds (.source header) tuple
  /-- It holds of what is computed from tuples of which it holds. -/
  yields : ∀ (before after : Catalog) role operator tuple, before.IdsMatch →
    Yields before after role flow.holds operator tuple → flow.holds operator tuple
  /-- It allows for backups. -/
  keeps : ∀ operator, flow.keeps operator

/-- What holds of all tuples of a run so far. -/
structure FlowHistory (deployment : Deployment) (flow : FlowInvariant) (log : List Firing)
    (world : World) : Prop where
  /-- The relations stand at their places. -/
  ids : world.catalog.IdsMatch
  /-- The statement holds of all tuples. -/
  carries : world.Carries flow deployment.tree
  /-- What was sent was computed from tuples of which the statement holds. -/
  sent : ∀ firing ∈ log, firing.operator ∈ deployment.tree.postOrder ∧
    ∀ result ∈ firing.sent, ∃ before after,
      Yields before after (deployment.schedule.role firing.operator.id) flow.holds firing.operator
        result

namespace FlowHistory

variable {deployment : Deployment} {flow : FlowInvariant} {arrives : Tuple → Prop}
  {log : List Firing} {world : World}

theorem fire (closed : flow.IsClosed arrives) {operator : QueryTree}
    (member : operator ∈ deployment.tree.postOrder)
    (history : FlowHistory deployment flow log world) :
    FlowHistory deployment flow (log ++ [deployment.schedule.fire operator world])
      (world.evaluate (deployment.schedule.role operator.id) operator).1 := by
  have different := deployment.input_id_ne member
  refine ⟨World.idsMatch_evaluate history.ids _ operator, ?_, fun firing firing_mem => ?_⟩
  · exact history.carries.evaluate deployment.ids_nodup member different fun tuple yields =>
      closed.yields _ _ _ _ tuple history.ids yields
  · rcases List.mem_append.mp firing_mem with old | newest
    · exact history.sent firing old
    · obtain rfl := List.mem_singleton.mp newest
      refine ⟨member, fun result sent => ?_⟩
      have steps := World.evaluate_steps (deployment.schedule.role operator.id) history.carries
        member different
      exact ⟨_, _, World.mem_sent steps sent⟩

theorem preserves (deployment : Deployment) (closed : flow.IsClosed arrives) :
    deployment.schedule.Preserves (Action.Brings arrives) (FlowHistory deployment flow) := by
  refine ⟨fun log world operator after error member history evaluated => ?_,
    fun log world operator after step execution member history evaluated world_eq => ?_,
    fun log execution action fresh external history => ?_⟩
  · have fired := history.fire closed (deployment.order_eq ▸ member)
    rwa [evaluated] at fired
  · have fired := history.fire closed (deployment.order_eq ▸ member)
    rw [evaluated, ← world_eq] at fired
    exact ⟨World.idsMatch_react _ step fired.ids, fired.carries.react _ step, fired.sent⟩
  · cases action with
    | arrive source tuple =>
        exact ⟨history.ids, history.carries.modifyArrivals fun header =>
          closed.fresh header tuple fresh, history.sent⟩
    | load place row =>
        refine ⟨history.ids.modify place fun relation => ?_, history.carries.of_cells_eq rfl,
          history.sent⟩
        split <;> rfl
    | update place change =>
        refine ⟨history.ids.modify place fun relation => ?_, history.carries.of_cells_eq rfl,
          history.sent⟩
        split <;> rfl
    | collect operator =>
        exact ⟨history.ids, history.carries.modifyOutput Channel.shrinks_clear, history.sent⟩
    | setBatchCount count => exact history
    | wakeUp => exact absurd trivial external

theorem start (deployment : Deployment) (closed : flow.IsClosed arrives) :
    FlowHistory deployment flow [] deployment.start.world := by
  refine ⟨?_, deployment.start_carries fun operator _ _ => closed.keeps operator, by simp⟩
  rw [deployment.start_catalog]
  exact World.idsMatch_initial deployment.query deployment.schedule.mode

/-- A statement that operators hand on holds of all tuples of every run. -/
theorem of_run (deployment : Deployment) (closed : flow.IsClosed arrives) {actions : List Action}
    (brings : ∀ action ∈ actions, action.Brings arrives) :
    FlowHistory deployment flow (deployment.trace actions) (deployment.run actions).world :=
  (preserves deployment closed).run brings (start deployment closed)

end FlowHistory

end StreamQuery
