import StreamQuery.Proofs.Engine.Updates
import StreamQuery.Proofs.Plan.Typing

/-!
# Pipelines

A pipeline is a plan in which a stream is matched with a relation before means are taken over
windows of rows. Its state is a line: the tuples that wait for each operator, the backup of the
stream, and the window of the mean.
-/

namespace StreamQuery

/-- A stream that is matched with a relation before means are taken. -/
structure Pipeline where
  /-- The stream. -/
  source : OperatorHeader
  /-- The match. -/
  combine : OperatorHeader
  /-- The mean. -/
  mean : OperatorHeader
  /-- The relation that is read. -/
  reference : RelationReference
  /-- The condition of the match. -/
  condition : Condition
  /-- The window of the mean. -/
  window : Window
  /-- The position of the attribute that means are taken of. -/
  index : Nat

namespace Pipeline

/-- The stream as an operator. -/
def stream (pipeline : Pipeline) : QueryTree :=
  .source pipeline.source

/-- The match as an operator. -/
def matching (pipeline : Pipeline) : QueryTree :=
  .single pipeline.combine (.combine pipeline.reference pipeline.condition) pipeline.stream

/-- The plan. -/
def tree (pipeline : Pipeline) : QueryTree :=
  .mean pipeline.mean pipeline.window pipeline.index pipeline.matching

@[simp] theorem tree_id (pipeline : Pipeline) : pipeline.tree.id = pipeline.mean.id :=
  rfl

/-- A deployment whose plan is a pipeline. -/
def IsPlanOf (pipeline : Pipeline) (deployment : Deployment) : Prop :=
  deployment.tree = pipeline.tree

/-- A deployment whose plan is a pipeline over windows of rows. -/
structure PlannedIn (pipeline : Pipeline) (deployment : Deployment) : Prop where
  /-- The plan is the pipeline. -/
  tree_eq : deployment.tree = pipeline.tree
  /-- Windows are counted in rows. -/
  kind_eq : pipeline.window.kind = .rows

/-- A deployment that runs a pipeline over windows of rows under optimistic control. -/
structure RunsIn (pipeline : Pipeline) (deployment : Deployment) : Prop where
  /-- The plan is the pipeline. -/
  tree_eq : deployment.tree = pipeline.tree
  /-- The protocol is optimistic. -/
  mode_eq : deployment.config.mode = .optimistic
  /-- Windows are counted in rows. -/
  kind_eq : pipeline.window.kind = .rows

/-- The three operators have three places. -/
structure HasPlaces (pipeline : Pipeline) : Prop where
  source_ne_combine : pipeline.source.id ≠ pipeline.combine.id
  source_ne_mean : pipeline.source.id ≠ pipeline.mean.id
  combine_ne_mean : pipeline.combine.id ≠ pipeline.mean.id

/-- The match and the mean are repeated from the output of the stream on. -/
structure IsRedoneBy (pipeline : Pipeline) (schedule : Schedule) : Prop where
  source_mem_streams : pipeline.source.id ∈ schedule.redo.streams
  source_not_mem : pipeline.source.id ∉ schedule.redo.operators
  combine_mem : pipeline.combine.id ∈ schedule.redo.operators
  combine_not_mem_streams : pipeline.combine.id ∉ schedule.redo.streams
  combine_ne_commit : schedule.commit? ≠ some pipeline.combine.id
  mean_mem : pipeline.mean.id ∈ schedule.redo.operators

namespace IsPlanOf

variable {pipeline : Pipeline} {deployment : Deployment}

theorem eq (plan : pipeline.IsPlanOf deployment) : deployment.tree = pipeline.tree :=
  plan

theorem order_eq (plan : pipeline.IsPlanOf deployment) :
    deployment.schedule.order = [pipeline.stream, pipeline.matching, pipeline.tree] := by
  rw [deployment.order_eq, plan.eq]
  rfl

theorem mem_postOrder (plan : pipeline.IsPlanOf deployment) :
    pipeline.matching ∈ deployment.tree.postOrder ∧ pipeline.tree ∈ deployment.tree.postOrder := by
  rw [← deployment.order_eq, plan.order_eq]
  simp

theorem hasCommit (plan : pipeline.IsPlanOf deployment) :
    deployment.HasCommit pipeline.mean pipeline.window pipeline.index pipeline.matching := by
  have found : deployment.tree.commitOperator? = some pipeline.tree := by
    rw [plan.eq]
    rfl
  obtain ⟨header, window, index, input, same, has_commit⟩ :=
    deployment.hasCommit_of_commitOperator? found
  cases same
  exact has_commit

theorem redo_eq (plan : pipeline.IsPlanOf deployment)
    (controlled : deployment.config.mode ≠ .uncontrolled) :
    deployment.schedule.redo =
      { operators := [pipeline.combine.id, pipeline.mean.id]
        streams := [pipeline.source.id] } := by
  rw [plan.hasCommit.redo_eq controlled, plan.eq]
  rfl

theorem hasPlaces (plan : pipeline.IsPlanOf deployment) : pipeline.HasPlaces := by
  have nodup := deployment.ids_nodup
  rw [← deployment.order_eq, plan.order_eq] at nodup
  simp only [List.map_cons, List.map_nil, List.nodup_cons, List.mem_cons, List.not_mem_nil,
    or_false, not_or] at nodup
  exact ⟨nodup.1.1, nodup.1.2, nodup.2.1⟩

theorem isRedoneBy (plan : pipeline.IsPlanOf deployment)
    (controlled : deployment.config.mode ≠ .uncontrolled) :
    pipeline.IsRedoneBy deployment.schedule := by
  obtain ⟨source_ne_combine, source_ne_mean, combine_ne_mean⟩ := plan.hasPlaces
  constructor
  case combine_ne_commit =>
    rw [plan.hasCommit.commit?_eq]
    exact fun same => combine_ne_mean (Option.some.inj same).symm
  all_goals
    rw [plan.redo_eq controlled]
    simp [source_ne_combine, source_ne_combine.symm, source_ne_mean]

/-- The mean is the commit operator. -/
theorem role_mean (plan : pipeline.IsPlanOf deployment) :
    deployment.schedule.role pipeline.mean.id = .of deployment.config.mode true := by
  rw [Schedule.role, plan.hasCommit.commit?_eq, deployment.mode_eq, decide_eq_true rfl]

/-- The window of the mean covers the read of the relation. -/
theorem replaysArea (plan : pipeline.IsPlanOf deployment) :
    deployment.schedule.replaysArea = true := by
  have covers : deployment.tree.commitOverlapsRead = true := by
    rw [plan.eq]
    rfl
  simp [Schedule.replaysArea, covers]

end IsPlanOf

theorem PlannedIn.isPlan {pipeline : Pipeline} {deployment : Deployment}
    (planned : pipeline.PlannedIn deployment) : pipeline.IsPlanOf deployment :=
  planned.tree_eq

namespace RunsIn

variable {pipeline : Pipeline} {deployment : Deployment}

theorem plannedIn (runs : pipeline.RunsIn deployment) : pipeline.PlannedIn deployment :=
  ⟨runs.tree_eq, runs.kind_eq⟩

theorem controlled (runs : pipeline.RunsIn deployment) :
    deployment.config.mode ≠ .uncontrolled := by
  rw [runs.mode_eq]
  exact Mode.noConfusion

theorem schedule_mode (runs : pipeline.RunsIn deployment) :
    deployment.schedule.mode = .optimistic :=
  deployment.mode_eq.trans runs.mode_eq

theorem role_mean (runs : pipeline.RunsIn deployment) :
    deployment.schedule.role pipeline.mean.id =
      { checksConsistency := true, signalsCommit := true, defersClose := false } := by
  rw [runs.plannedIn.isPlan.role_mean, runs.mode_eq]
  rfl

end RunsIn

/-! ## Lines -/

/-- The state of a pipeline. -/
structure Line where
  /-- The arrivals that the stream has not passed on. -/
  arrivals : List Tuple
  /-- The output of the stream. -/
  passed : Channel
  /-- The matches that wait for the mean. -/
  matched : List Tuple
  /-- The window of the mean. -/
  buffer : RowBuffer
  /-- The results that wait to be collected. -/
  results : List Tuple

/-- A world in which the operators of a pipeline are in the state that a line describes. The last
commit of the mean is closed unless it is said to be open. -/
structure Shows (pipeline : Pipeline) (world : World) (line : Line) (isOpen : Bool := false) :
    Prop where
  /-- The stream. -/
  source : world.CellAt pipeline.source.id fun cell => cell.output = line.passed ∧
    ∃ arrivals, cell.memory = .source arrivals ∧ arrivals.queue = line.arrivals
  /-- The match. -/
  combine : world.CellAt pipeline.combine.id fun cell =>
    cell.output.queue = line.matched ∧ cell.memory = .stateless
  /-- The mean. -/
  mean : world.CellAt pipeline.mean.id fun cell => cell.output.queue = line.results ∧
    ∃ aggregation, cell.memory = .aggregate aggregation ∧
      aggregation.synopsis = .rows line.buffer ∧ aggregation.pendingCommit = isOpen

namespace Shows

variable {pipeline : Pipeline} {world : World} {line : Line} {isOpen : Bool}

theorem of_cells_eq {after : World} (shows_line : pipeline.Shows world line isOpen)
    (cells_eq : after.cells = world.cells) : pipeline.Shows after line isOpen := by
  obtain ⟨source, combine, mean⟩ := shows_line
  simp only [World.CellAt, ← cells_eq] at source combine mean
  exact ⟨source, combine, mean⟩

theorem consume (shows_line : pipeline.Shows world line isOpen) (id count : Nat) :
    pipeline.Shows (world.modifyCell id (·.consume count)) line isOpen where
  source := shows_line.source.modifyCell id fun _ holds => holds
  combine := shows_line.combine.modifyCell id fun _ holds => holds
  mean := shows_line.mean.modifyCell id fun _ holds => holds

/-- The output of the stream can be changed. -/
theorem modifyPassed (shows_line : pipeline.Shows world line isOpen) (places : pipeline.HasPlaces)
    (change : Channel → Channel) :
    pipeline.Shows (world.modifyOutput pipeline.source.id change)
      { line with passed := change line.passed } isOpen where
  source := shows_line.source.modifyCell_self fun _ ⟨output_eq, memory_eq⟩ =>
    ⟨congrArg change output_eq, memory_eq⟩
  combine := shows_line.combine.modifyCell_of_ne places.source_ne_combine.symm
  mean := shows_line.mean.modifyCell_of_ne places.source_ne_mean.symm

/-- The output of the match can be changed. -/
theorem modifyMatched (shows_line : pipeline.Shows world line isOpen) (places : pipeline.HasPlaces)
    {change : Channel → Channel} {matched : List Tuple}
    (change_eq : ∀ channel : Channel, channel.queue = line.matched →
      (change channel).queue = matched) :
    pipeline.Shows (world.modifyOutput pipeline.combine.id change) { line with matched }
      isOpen where
  source := shows_line.source.modifyCell_of_ne places.source_ne_combine
  combine := shows_line.combine.modifyCell_self fun cell ⟨queue_eq, memory_eq⟩ =>
    ⟨change_eq cell.output queue_eq, memory_eq⟩
  mean := shows_line.mean.modifyCell_of_ne places.combine_ne_mean.symm

/-- The cell of the stream can be replaced. -/
theorem setSource (shows_line : pipeline.Shows world line isOpen) (places : pipeline.HasPlaces)
    {cell : Cell} {arrivals : Channel} (memory_eq : cell.memory = .source arrivals) :
    pipeline.Shows (world.modifyCell pipeline.source.id fun _ => cell)
      { line with arrivals := arrivals.queue, passed := cell.output } isOpen where
  source := shows_line.source.modifyCell_self fun _ _ => ⟨rfl, arrivals, memory_eq, rfl⟩
  combine := shows_line.combine.modifyCell_of_ne places.source_ne_combine.symm
  mean := shows_line.mean.modifyCell_of_ne places.source_ne_mean.symm

/-- The cell of the match can be replaced. -/
theorem setCombine (shows_line : pipeline.Shows world line isOpen) (places : pipeline.HasPlaces)
    {cell : Cell} (memory_eq : cell.memory = .stateless) :
    pipeline.Shows (world.modifyCell pipeline.combine.id fun _ => cell)
      { line with matched := cell.output.queue } isOpen where
  source := shows_line.source.modifyCell_of_ne places.source_ne_combine
  combine := shows_line.combine.modifyCell_self fun _ _ => ⟨rfl, memory_eq⟩
  mean := shows_line.mean.modifyCell_of_ne places.combine_ne_mean.symm

/-- The cell of the mean can be replaced. -/
theorem setMean (shows_line : pipeline.Shows world line isOpen) (places : pipeline.HasPlaces)
    {cell : Cell} {aggregation : Aggregation} {buffer : RowBuffer}
    (memory_eq : cell.memory = .aggregate aggregation)
    (synopsis_eq : aggregation.synopsis = .rows buffer) :
    pipeline.Shows (world.modifyCell pipeline.mean.id fun _ => cell)
      { line with buffer, results := cell.output.queue } aggregation.pendingCommit where
  source := shows_line.source.modifyCell_of_ne places.source_ne_mean
  combine := shows_line.combine.modifyCell_of_ne places.combine_ne_mean
  mean := shows_line.mean.modifyCell_self fun _ _ =>
    ⟨rfl, aggregation, memory_eq, synopsis_eq, rfl⟩

end Shows

end Pipeline

end StreamQuery
