import StreamQuery.Proofs.Engine.Updates
import StreamQuery.Proofs.Window.Tumbling

/-!
# Confluences

A confluence is a plan in which a stream is matched with a relation and then joined with another
stream, before means are taken.
-/

namespace StreamQuery

/-- A matched stream that is joined with another stream before means are taken. -/
structure Confluence where
  /-- The stream that is matched, on the left of the join. -/
  left : OperatorHeader
  /-- The match. -/
  combine : OperatorHeader
  /-- The stream on the right of the join. -/
  right : OperatorHeader
  /-- The join. -/
  join : OperatorHeader
  /-- The mean. -/
  mean : OperatorHeader
  /-- The relation that is read. -/
  reference : RelationReference
  /-- The condition of the match. -/
  condition : Condition
  /-- The windows and the condition of the join. -/
  logic : JoinLogic
  /-- The window of the mean. -/
  window : Window
  /-- The position of the attribute that means are taken of. -/
  index : Nat

namespace Confluence

/-- The left stream as an operator. -/
def leftStream (plan : Confluence) : QueryTree :=
  .source plan.left

/-- The match as an operator. -/
def matching (plan : Confluence) : QueryTree :=
  .single plan.combine (.combine plan.reference plan.condition) plan.leftStream

/-- The right stream as an operator. -/
def rightStream (plan : Confluence) : QueryTree :=
  .source plan.right

/-- The join as an operator. -/
def joining (plan : Confluence) : QueryTree :=
  .join plan.join plan.logic plan.matching plan.rightStream

/-- The plan. -/
def tree (plan : Confluence) : QueryTree :=
  .mean plan.mean plan.window plan.index plan.joining

/-- All windows move by as many rows as they hold. -/
structure IsTumbling (plan : Confluence) : Prop where
  left : plan.logic.leftWindow.IsTumbling
  right : plan.logic.rightWindow.IsTumbling
  mean : plan.window.IsTumbling

/-- A deployment that runs a confluence under optimistic control. -/
structure RunsIn (plan : Confluence) (deployment : Deployment) : Prop where
  /-- The plan is the confluence. -/
  tree_eq : deployment.tree = plan.tree
  /-- The protocol is optimistic. -/
  mode_eq : deployment.config.mode = .optimistic
  /-- All windows are tumbling windows of rows. -/
  tumbling : plan.IsTumbling

/-- The five operators have five places. -/
structure HasPlaces (plan : Confluence) : Prop where
  left_ne_combine : plan.left.id ≠ plan.combine.id
  left_ne_right : plan.left.id ≠ plan.right.id
  left_ne_join : plan.left.id ≠ plan.join.id
  left_ne_mean : plan.left.id ≠ plan.mean.id
  combine_ne_right : plan.combine.id ≠ plan.right.id
  combine_ne_join : plan.combine.id ≠ plan.join.id
  combine_ne_mean : plan.combine.id ≠ plan.mean.id
  right_ne_join : plan.right.id ≠ plan.join.id
  right_ne_mean : plan.right.id ≠ plan.mean.id
  join_ne_mean : plan.join.id ≠ plan.mean.id

namespace RunsIn

variable {plan : Confluence} {deployment : Deployment}

theorem order_eq (runs : plan.RunsIn deployment) :
    deployment.schedule.order =
      [plan.leftStream, plan.matching, plan.rightStream, plan.joining, plan.tree] := by
  rw [deployment.order_eq, runs.tree_eq]
  rfl

theorem hasCommit (runs : plan.RunsIn deployment) :
    deployment.HasCommit plan.mean plan.window plan.index plan.joining := by
  have found : deployment.tree.commitOperator? = some plan.tree := by
    rw [runs.tree_eq]
    rfl
  obtain ⟨header, window, index, input, same, has_commit⟩ :=
    deployment.hasCommit_of_commitOperator? found
  cases same
  exact has_commit

/-- The match, the join and the mean start over, with what both streams have in their backups. -/
theorem redo_eq (runs : plan.RunsIn deployment) :
    deployment.schedule.redo =
      { operators := [plan.combine.id, plan.join.id, plan.mean.id]
        streams := [plan.left.id, plan.right.id] } := by
  rw [runs.hasCommit.redo_eq (by simp [runs.mode_eq]), runs.tree_eq]
  rfl

theorem hasPlaces (runs : plan.RunsIn deployment) : plan.HasPlaces := by
  have nodup := deployment.ids_nodup
  rw [← deployment.order_eq, runs.order_eq] at nodup
  simp only [List.map_cons, List.map_nil, List.nodup_cons, List.mem_cons, List.not_mem_nil,
    or_false, not_or] at nodup
  obtain ⟨⟨_, _, _, _⟩, ⟨_, _, _⟩, ⟨_, _⟩, _, _⟩ := nodup
  constructor <;> assumption

theorem schedule_mode (runs : plan.RunsIn deployment) :
    deployment.schedule.mode = .optimistic :=
  deployment.mode_eq.trans runs.mode_eq

/-- The mean is the commit operator. -/
theorem role_mean (runs : plan.RunsIn deployment) :
    deployment.schedule.role plan.mean.id =
      { checksConsistency := true, signalsCommit := true, defersClose := false } := by
  rw [Schedule.role, runs.hasCommit.commit?_eq, runs.schedule_mode, decide_eq_true rfl]
  rfl

theorem replaysArea (runs : plan.RunsIn deployment) : deployment.schedule.replaysArea = true := by
  simp [Schedule.replaysArea, runs.mode_eq]

end RunsIn

end Confluence

end StreamQuery
