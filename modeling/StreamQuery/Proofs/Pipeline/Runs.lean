import Mathlib.Data.List.Induction
import Mathlib.Data.List.Infix
import StreamQuery.Proofs.Pipeline.History
import StreamQuery.Proofs.Relation.Kept

/-!
# Runs of pipelines

Relations are loaded before a pipeline runs. Then tuples arrive, relations are updated, results are
collected and the scheduler takes turns, in any order.
-/

namespace StreamQuery

namespace Action

/-- An action that changes relations only. -/
def ChangesRelations : Action → Prop
  | load _ _ => True
  | update _ _ => True
  | _ => False

instance : DecidablePred ChangesRelations
  | load _ _ => .isTrue trivial
  | update _ _ => .isTrue trivial
  | arrive _ _ => .isFalse id
  | collect _ => .isFalse id
  | setBatchCount _ => .isFalse id
  | wakeUp => .isFalse id

end Action

/-- Relations can be changed without touching operators. -/
theorem Schedule.performAll_of_changesRelations {schedule : Schedule} {actions : List Action}
    (changes : ∀ action ∈ actions, action.ChangesRelations) (execution : Execution) :
    (schedule.performAll execution actions).world.cells = execution.world.cells ∧
      (schedule.performAll execution actions).openCommits = execution.openCommits ∧
      schedule.trace execution actions = [] := by
  induction actions generalizing execution with
  | nil => exact ⟨rfl, rfl, rfl⟩
  | cons action actions induction =>
      have action_changes := changes action List.mem_cons_self
      have cells_eq : (schedule.perform execution action).world.cells = execution.world.cells := by
        cases action <;> first | rfl | cases action_changes
      have commits_eq : (schedule.perform execution action).openCommits =
          execution.openCommits := by
        cases action <;> first | rfl | cases action_changes
      have unlogged : schedule.actionFirings execution action = [] := by
        cases action <;> first | rfl | cases action_changes
      obtain ⟨later_cells, later_commits, later_trace⟩ :=
        induction (fun later member => changes later (List.mem_cons_of_mem _ member))
          (schedule.perform execution action)
      refine ⟨later_cells.trans cells_eq, later_commits.trans commits_eq, ?_⟩
      rw [trace, unlogged, later_trace, List.append_nil]

/-- Relations can be changed without ending what transactions keep. -/
theorem Schedule.performAll_kept? {schedule : Schedule} {actions : List Action}
    (changes : ∀ action ∈ actions, action.ChangesRelations) {execution : Execution}
    (coherent : execution.world.catalog.IsCoherent) :
    (schedule.performAll execution actions).world.catalog.IsCoherent ∧
      ∀ id, (schedule.performAll execution actions).world.catalog.kept? id =
        execution.world.catalog.kept? id := by
  induction actions generalizing execution with
  | nil => exact ⟨coherent, fun _ => rfl⟩
  | cons action actions induction =>
      have one : (schedule.perform execution action).world.catalog.IsCoherent ∧
          ∀ id, (schedule.perform execution action).world.catalog.kept? id =
            execution.world.catalog.kept? id := by
        cases action with
        | load place row =>
            refine ⟨coherent.modify_unlocked ?_ place,
              Catalog.modify_kept? coherent.holdsLocks fun _ locked => if_pos locked⟩
            exact fun relation => ⟨rfl, Nat.le_refl _⟩
        | update place change =>
            refine ⟨coherent.modify_unlocked ?_ place,
              Catalog.modify_kept? coherent.holdsLocks fun _ locked => if_pos locked⟩
            exact fun relation => ⟨rfl, Nat.le_succ _⟩
        | _ => cases changes _ List.mem_cons_self
      obtain ⟨later_coherent, later_kept⟩ :=
        induction (fun later member => changes later (List.mem_cons_of_mem _ member)) one.1
      exact ⟨later_coherent, fun id => (later_kept id).trans (one.2 id)⟩

namespace Deployment

/-- At the start nothing is kept. -/
theorem start_kept? (deployment : Deployment) (id : RelationId) :
    deployment.start.world.catalog.kept? id = none := by
  rw [start_catalog]
  simp only [Catalog.kept?, World.initial]
  split <;> rfl

end Deployment

namespace Pipeline

/-- What may happen to a pipeline while it runs. Relations are updated but no rows are loaded, and
only results are taken away. -/
def Allows (pipeline : Pipeline) : Action → Prop
  | .arrive source _ => source = pipeline.source.id
  | .load _ _ => False
  | .update _ _ => True
  | .collect operator => operator = pipeline.mean.id
  | .setBatchCount _ => True
  | .wakeUp => True

instance (pipeline : Pipeline) : DecidablePred pipeline.Allows
  | .arrive source _ => inferInstanceAs (Decidable (source = pipeline.source.id))
  | .load _ _ => .isFalse id
  | .update _ _ => .isTrue trivial
  | .collect operator => inferInstanceAs (Decidable (operator = pipeline.mean.id))
  | .setBatchCount _ => .isTrue trivial
  | .wakeUp => .isTrue trivial

/-- The versions of the relation that a run shows, after relations were loaded. -/
def Shown (pipeline : Pipeline) (deployment : Deployment) (loading actions : List Action)
    (snapshot : Snapshot) : Prop :=
  ∃ earlier, earlier <+: actions ∧
    deployment.snapshotAfter pipeline.reference.place (loading ++ earlier) = some snapshot

variable {pipeline : Pipeline} {deployment : Deployment} {loading actions : List Action}

/-- The data that arrives at the stream. -/
def inputs (pipeline : Pipeline) (actions : List Action) : List Tuple :=
  dataOf (arrivalsAt pipeline.source.id actions)

theorem inputs_append (earlier later : List Action) :
    pipeline.inputs (earlier ++ later) = pipeline.inputs earlier ++ pipeline.inputs later := by
  rw [inputs, arrivalsAt_append, dataOf_append]
  rfl

end Pipeline

end StreamQuery
